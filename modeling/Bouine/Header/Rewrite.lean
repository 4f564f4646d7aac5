import Mathlib.Data.List.DropRight
import Bouine.Header.Map

/-! # Header rewrites

`header_remove` and `header_set` of a route, for requests (`rewriteRequestCtx`) and responses
(`applyResponseRewrites`, both in `internal/cache/handler.go`): every listed name is deleted, then
every listed value is set. `Set` of fasthttp treats some names of requests and of responses in ways
of their own.
-/

namespace Bouine.Header

open Lib
open List hiding splitOn

/-! ## Setting a line -/

/-- How a header sets a line, and what becomes of the lines with the name. -/
structure Setter where
  set : Raw → Line → Raw
  lines : Line → List Bytes → List Bytes
  peekAll_set : ∀ h l name, (set h l).peekAll name =
    if name = l.name then lines l (h.peekAll name) else h.peekAll name

def trimBlanks (s : Bytes) : Bytes := (s.dropWhile (· = byte ' ')).rdropWhile (· = byte ' ')

def unquoted (s : Bytes) : Bytes :=
  if 1 < s.length ∧ s.head? = some (byte '"') ∧ s.getLast? = some (byte '"') then (s.drop 1).dropLast
  else s

/-- A cookie as it is read and written again. -/
def cookieText (pair : Bytes) : Bytes :=
  if byte '=' ∈ pair then
    let key := trimBlanks (cutAt (byte '=') pair).1
    (if key = [] then [] else key ++ [byte '=']) ++
      unquoted (trimBlanks (cutAt (byte '=') pair).2)
  else unquoted (trimBlanks pair)

/-- All cookies on one line, if there are any. -/
def joinCookies (ls : List Bytes) : List Bytes :=
  let cookies := (ls.flatMap fun l => (splitOn (byte ';') l).map cookieText).filter (· ≠ [])
  if cookies = [] then [] else [List.intercalate (ascii "; ") cookies]

/-- A request: `Transfer-Encoding` is not set, and cookies join those that are there. -/
def requestSet : Setter where
  set h l :=
    if l.name = ascii "Transfer-Encoding" then h
    else if l.name = ascii "Cookie" then
      ⟨(h.del l.name).lines ++ (joinCookies (h.peekAll l.name ++ [l.value])).map (⟨l.name, ·⟩)⟩
    else h.set l.name l.value
  lines l ls :=
    if l.name = ascii "Transfer-Encoding" then ls
    else if l.name = ascii "Cookie" then joinCookies (ls ++ [l.value])
    else l.value :: ls.drop 1
  peekAll_set h l name := by
    by_cases hname : name = l.name
    · subst hname
      rw [if_pos rfl]
      split_ifs
      · rfl
      · have hnone := h.peekAll_del_self l.name
        simp only [Raw.peekAll] at hnone ⊢
        rw [valuesOf_append, hnone]
        simp [valuesOf, filter_map, Function.comp_def]
      · rw [Raw.peekAll_set, if_pos rfl]
    · rw [if_neg hname]
      split_ifs
      · rfl
      · have hkeep := h.peekAll_del_of_ne hname
        simp only [Raw.peekAll] at hkeep ⊢
        rw [valuesOf_append, hkeep]
        simp [valuesOf, filter_map, Function.comp_def, Ne.symm hname]
      · exact Raw.peekAll_set_of_ne hname h l.value

/-! ## Rewrites -/

/-- Names are in the form the header object takes. The source keeps `set` as a map; the list is the
order of the walk. -/
structure Rewrite where
  remove : List Bytes
  set : List (Bytes × Bytes)
deriving DecidableEq

namespace Rewrite

variable (d : Rewrite)

def apply (f : Setter) (hdr : Raw) : Raw :=
  d.set.foldl (fun h e => f.set h ⟨e.1, e.2⟩) (d.remove.foldl Raw.del hdr)

def rewriteRequestCtx (hdr : Raw) : Raw := d.apply requestSet hdr

def canonical : Rewrite :=
  ⟨d.remove.map canonicalHeaderKey, d.set.map fun e => (canonicalHeaderKey e.1, e.2)⟩

def Removes (name : Bytes) : Prop := name ∈ d.remove ∧ name ∉ d.set.map Prod.fst

/-- The lines that are not deleted. -/
def kept (name : Bytes) (ls : List Bytes) : List Bytes := if name ∈ d.remove then [] else ls

def lines (f : Setter) (name : Bytes) (ls : List Bytes) : List Bytes :=
  (d.set.filter fun e => e.1 = name).foldl (fun ls e => f.lines ⟨e.1, e.2⟩ ls) (d.kept name ls)

theorem peekAll_foldl_del (names : List Bytes) (hdr : Raw) (name : Bytes) :
    (names.foldl Raw.del hdr).peekAll name = if name ∈ names then [] else hdr.peekAll name := by
  induction names generalizing hdr with
  | nil => simp
  | cons n names ih =>
    rw [foldl_cons, ih]
    by_cases hn : name = n
    · simp [hn, Raw.peekAll_del_self]
    · simp [hn, hdr.peekAll_del_of_ne hn]

variable (f : Setter)

theorem peekAll_foldl_set (es : List (Bytes × Bytes)) (hdr : Raw) (name : Bytes) :
    (es.foldl (fun h e => f.set h ⟨e.1, e.2⟩) hdr).peekAll name =
      (es.filter fun e => e.1 = name).foldl (fun ls e => f.lines ⟨e.1, e.2⟩ ls)
        (hdr.peekAll name) := by
  induction es generalizing hdr with
  | nil => rfl
  | cons e es ih =>
    rw [foldl_cons, ih, f.peekAll_set]
    by_cases he : e.1 = name
    · simp [he]
    · simp [Ne.symm he, he]

theorem peekAll_apply (hdr : Raw) (name : Bytes) :
    (d.apply f hdr).peekAll name = d.lines f name (hdr.peekAll name) := by
  rw [apply, peekAll_foldl_set, peekAll_foldl_del]
  rfl

theorem lines_of_not_set {name : Bytes} (h : name ∉ d.set.map Prod.fst) (ls : List Bytes) :
    d.lines f name ls = d.kept name ls := by
  have hnone : (d.set.filter fun e => e.1 = name) = [] := by
    rw [filter_eq_nil_iff]
    intro e he hname
    exact h (mem_map.2 ⟨e, he, by simpa using hname⟩)
  rw [lines, hnone]
  rfl

theorem lines_of_removes {name : Bytes} (h : d.Removes name) (ls : List Bytes) :
    d.lines f name ls = [] := by
  rw [d.lines_of_not_set f h.2, kept, if_pos h.1]

theorem filter_fst_eq {es : List (Bytes × Bytes)} (hdistinct : (es.map Prod.fst).Nodup)
    {e : Bytes × Bytes} (he : e ∈ es) : (es.filter fun e' => e'.1 = e.1) = [e] := by
  induction es with
  | nil => cases he
  | cons x es ih =>
    obtain ⟨hnot, hdistinct⟩ := nodup_cons.1 hdistinct
    rcases mem_cons.1 he with rfl | he
    · rw [filter_cons_of_pos (by simp), filter_eq_nil_iff.2]
      exact fun e' he' hname => hnot (mem_map.2 ⟨e', he', by simpa using hname⟩)
    · have hne : x.1 ≠ e.1 := fun hname => hnot (hname ▸ mem_map_of_mem he)
      rw [filter_cons_of_neg (by simpa using hne), ih hdistinct he]

/-- Of names that are set once each, the pair makes the lines. -/
theorem lines_of_mem (hdistinct : (d.set.map Prod.fst).Nodup) {e : Bytes × Bytes} (he : e ∈ d.set)
    (ls : List Bytes) : d.lines f e.1 ls = f.lines ⟨e.1, e.2⟩ (d.kept e.1 ls) := by
  rw [lines, filter_fst_eq hdistinct he]
  rfl

end Rewrite

/-! ## Fields whatever the case of their names -/

def fieldValues (name : Bytes) (ls : List Line) : List Bytes :=
  (ls.filter fun l => canonicalHeaderKey l.name = name).map Line.value

theorem mem_valuesOf {name v : Bytes} {ls : List Line} :
    v ∈ valuesOf name ls ↔ ⟨name, v⟩ ∈ ls := by
  simp only [valuesOf, mem_map, mem_filter, decide_eq_true_eq]
  constructor
  · intro h
    obtain ⟨l, ⟨hl, rfl⟩, rfl⟩ := h
    exact hl
  · exact fun h => ⟨_, ⟨h, rfl⟩, rfl⟩

end Bouine.Header
