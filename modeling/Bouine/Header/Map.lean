import Mathlib.Data.List.Sort
import Bouine.Lib.Bytes

/-! # Header fields

A header as it arrives is a list of lines (`fasthttp`); a stored one is `header.Map`
(`pkg/header/headermap.go`), entries in the order of their canonical names. Different functions read
the two; here is how what they find is related.
-/

namespace Bouine.Header

open Lib List Bool

structure Line where
  name : Bytes
  value : Bytes
deriving DecidableEq

def valuesOf (name : Bytes) (ls : List Line) : List Bytes :=
  (ls.filter fun l => l.name = name).map Line.value

theorem valuesOf_cons (name : Bytes) (l : Line) (ls : List Line) :
    valuesOf name (l :: ls) =
      if l.name = name then l.value :: valuesOf name ls else valuesOf name ls := by
  by_cases h : l.name = name <;> simp [valuesOf, h]

/-! ## Canonical names -/

def isLowerLetter (c : UInt8) : Bool := byte 'a' ≤ c && c ≤ byte 'z'

def isUpperLetter (c : UInt8) : Bool := byte 'A' ≤ c && c ≤ byte 'Z'

/-- `upper` tells that the next letter starts a word. -/
def isCanonicalFrom : Bool → Bytes → Bool
  | _, [] => true
  | upper, c :: s =>
    if upper then if isLowerLetter c then false else isCanonicalFrom false s
    else if c = byte '-' then isCanonicalFrom true s
    else if isUpperLetter c then false
    else isCanonicalFrom false s

def isCanonical (key : Bytes) : Bool := isCanonicalFrom true key

def canonicalizeFrom : Bool → Bytes → Bytes
  | _, [] => []
  | upper, c :: s =>
    if upper then (if isLowerLetter c then c - 32 else c) :: canonicalizeFrom false s
    else if c = byte '-' then c :: canonicalizeFrom true s
    else (if isUpperLetter c then c + 32 else c) :: canonicalizeFrom false s

def canonicalize (key : Bytes) : Bytes := canonicalizeFrom true key

def canonicalHeaderKey (key : Bytes) : Bytes := if isCanonical key then key else canonicalize key

theorem isCanonicalFrom_iff (upper : Bool) (s : Bytes) :
    isCanonicalFrom upper s ↔ canonicalizeFrom upper s = s := by
  have hlower : ∀ c : UInt8, c - 32 ≠ c := by
    intro c h
    have := congrArg UInt8.toNat h
    simp only [UInt8.toNat_sub, UInt8.reduceToNat] at this
    omega
  induction s generalizing upper with
  | nil => simp [isCanonicalFrom, canonicalizeFrom]
  | cons c s ih =>
    cases upper with
    | true =>
      rw [isCanonicalFrom, canonicalizeFrom]
      by_cases hc : isLowerLetter c = true
      · simp [hc, hlower c]
      · simp [hc, ih]
    | false =>
      simp only [isCanonicalFrom, canonicalizeFrom]
      by_cases hdash : c = byte '-'
      · simp [hdash, ih]
      · rw [if_neg hdash, if_neg hdash]
        by_cases hc : isUpperLetter c = true
        · simp [hc]
        · simp [ih]

theorem canonicalizeFrom_idem (upper : Bool) (s : Bytes) :
    canonicalizeFrom upper (canonicalizeFrom upper s) = canonicalizeFrom upper s := by
  have hlower := forall_byte (P := fun c => isLowerLetter c = true →
    isLowerLetter (c - 32) = false) (by decide +kernel)
  have hupper := forall_byte (P := fun c => isUpperLetter c = true →
    isUpperLetter (c + 32) = false ∧ c + 32 ≠ byte '-') (by decide +kernel)
  induction s generalizing upper with
  | nil => rfl
  | cons c s ih =>
    cases upper with
    | true =>
      by_cases hc : isLowerLetter c = true
      · simp [canonicalizeFrom, hc, hlower c hc, ih]
      · simp [canonicalizeFrom, hc, ih]
    | false =>
      by_cases hdash : c = byte '-'
      · simp [canonicalizeFrom, hdash, ih]
      · by_cases hc : isUpperLetter c = true
        · simp [canonicalizeFrom, hdash, hc, hupper c hc, ih]
        · simp [canonicalizeFrom, hdash, hc, ih]

theorem canonicalHeaderKey_of_isCanonical {f : Bytes} (hf : isCanonical f) :
    canonicalHeaderKey f = f := by
  rw [canonicalHeaderKey, if_pos hf]

theorem isCanonical_canonicalHeaderKey (key : Bytes) :
    isCanonical (canonicalHeaderKey key) = true := by
  unfold canonicalHeaderKey
  split_ifs with hk
  · exact hk
  · exact (isCanonicalFrom_iff _ _).2 (canonicalizeFrom_idem true key)

theorem canonicalHeaderKey_eq (key : Bytes) : canonicalHeaderKey key = canonicalize key := by
  unfold canonicalHeaderKey
  split_ifs with hk
  · exact ((isCanonicalFrom_iff true key).1 hk).symm
  · rfl

theorem toLower_canonicalizeFrom (upper : Bool) (s : Bytes) :
    toLower (canonicalizeFrom upper s) = toLower s := by
  have hlower := forall_byte (P := fun c => toLowerByte (if isLowerLetter c then c - 32 else c) =
    toLowerByte c) (by decide +kernel)
  have hupper := forall_byte (P := fun c => toLowerByte (if isUpperLetter c then c + 32 else c) =
    toLowerByte c) (by decide +kernel)
  induction s generalizing upper with
  | nil => rfl
  | cons c s ih =>
    cases upper with
    | true => exact congrArg₂ cons (hlower c) (ih false)
    | false =>
      rw [canonicalizeFrom]
      by_cases hdash : c = byte '-'
      · rw [if_pos hdash]
        exact congrArg (cons _) (ih true)
      · rw [if_neg hdash]
        exact congrArg₂ cons (hupper c) (ih false)

theorem canonicalizeFrom_toLower (upper : Bool) (s : Bytes) :
    canonicalizeFrom upper (toLower s) = canonicalizeFrom upper s := by
  have hlower := forall_byte (P := fun c => (if isLowerLetter (toLowerByte c) then toLowerByte c - 32
    else toLowerByte c) = if isLowerLetter c then c - 32 else c) (by decide +kernel)
  have hupper := forall_byte (P := fun c => (if isUpperLetter (toLowerByte c) then toLowerByte c + 32
    else toLowerByte c) = if isUpperLetter c then c + 32 else c) (by decide +kernel)
  have hdash := forall_byte (P := fun c => toLowerByte c = byte '-' ↔ c = byte '-') (by decide +kernel)
  induction s generalizing upper with
  | nil => rfl
  | cons c s ih =>
    show canonicalizeFrom upper (toLowerByte c :: toLower s) = _
    cases upper with
    | true => exact congrArg₂ cons (hlower c) (ih false)
    | false =>
      simp only [canonicalizeFrom, false_eq_true, if_false]
      by_cases hc : c = byte '-'
      · rw [if_pos ((hdash c).2 hc), if_pos hc, (hdash c).2 hc, hc, ih true]
      · rw [if_neg fun h => hc ((hdash c).1 h), if_neg hc, hupper, ih false]

theorem canonicalHeaderKey_eq_iff {a b : Bytes} :
    canonicalHeaderKey a = canonicalHeaderKey b ↔ equalFold a b = true := by
  rw [canonicalHeaderKey_eq, canonicalHeaderKey_eq, equalFold, beq_iff_eq]
  constructor
  · intro h
    have := congrArg toLower h
    rwa [canonicalize, canonicalize, toLower_canonicalizeFrom, toLower_canonicalizeFrom] at this
  · intro h
    rw [canonicalize, canonicalize, ← canonicalizeFrom_toLower, h, canonicalizeFrom_toLower]

/-! ## Stored headers -/

/-- `header.Map`: names and values. The source keeps the values in an array with a slot for each
entry. -/
structure Map where
  entries : List Line
deriving DecidableEq

namespace Map

def empty : Map := ⟨[]⟩

def nameLE (a b : Line) : Prop := bytesLE a.name b.name

instance : DecidableRel nameLE := fun a b => inferInstanceAs (Decidable (bytesLE a.name b.name))

/-- `SortEntries`; the sort is stable. -/
def sortEntries (h : Map) : Map := ⟨h.entries.insertionSort nameLE⟩

def first? (h : Map) (name : Bytes) : Option Bytes := (valuesOf name h.entries).head?

def get (h : Map) (key : Bytes) : Bytes :=
  match h.first? key with
  | some v => v
  | none => if isCanonical key then [] else (h.first? (canonicalize key)).getD []

/-- `GetAll`: the values of all lines as one list value. -/
def getAll (h : Map) (key : Bytes) : Bytes :=
  let parts := valuesOf key h.entries
  let parts :=
    if parts = [] ∧ isCanonical key = false then valuesOf (canonicalize key) h.entries else parts
  List.intercalate (ascii ", ") parts

/-- `CookieAll`: all cookie lines that are not empty. -/
def cookieAll (h : Map) : Bytes :=
  List.intercalate (ascii "; ") ((valuesOf (ascii "Cookie") h.entries).filter (· ≠ []))

def has (h : Map) (key : Bytes) : Bool := h.entries.any fun e => e.name = canonicalHeaderKey key

def replaceFirst (name value : Bytes) : List Line → Option (List Line)
  | [] => none
  | e :: es =>
    if e.name = name then some (⟨name, value⟩ :: es)
    else (replaceFirst name value es).map (e :: ·)

def insertSorted (e : Line) : List Line → List Line
  | [] => [e]
  | x :: xs => if e.name < x.name then e :: x :: xs else x :: insertSorted e xs

/-- `Set`: only the first entry with the name is replaced. -/
def set (h : Map) (key value : Bytes) : Map :=
  let ck := canonicalHeaderKey key
  ⟨(replaceFirst ck value h.entries).getD (insertSorted ⟨ck, value⟩ h.entries)⟩

/-- `Del`: only the first entry with the name goes. -/
def del (h : Map) (key : Bytes) : Map :=
  ⟨h.entries.eraseP fun e => e.name = canonicalHeaderKey key⟩

def appendEntry (h : Map) (key value : Bytes) : Map :=
  ⟨h.entries ++ [⟨canonicalHeaderKey key, value⟩]⟩

/-- `SetEntryRaw`: as `Set`, with the name as it is and a new entry at the end. -/
def setEntryRaw (h : Map) (key value : Bytes) : Map :=
  ⟨(replaceFirst key value h.entries).getD (h.entries ++ [⟨key, value⟩])⟩

variable {key : Bytes} {h : Map}

theorem get_of_isCanonical (hk : isCanonical key) : h.get key = (h.first? key).getD [] := by
  unfold get
  cases h.first? key <;> simp [hk]

theorem getAll_of_isCanonical (hk : isCanonical key) :
    h.getAll key = List.intercalate (ascii ", ") (valuesOf key h.entries) := by
  simp [getAll, hk]

theorem get_congr {a b : Map} (hk : isCanonical key)
    (heq : valuesOf key a.entries = valuesOf key b.entries) : a.get key = b.get key := by
  rw [get_of_isCanonical hk, get_of_isCanonical hk, first?, first?, heq]

theorem getAll_congr {a b : Map} (hk : isCanonical key)
    (heq : valuesOf key a.entries = valuesOf key b.entries) : a.getAll key = b.getAll key := by
  rw [getAll_of_isCanonical hk, getAll_of_isCanonical hk, heq]

theorem valuesOf_replaceFirst {key value : Bytes} {ls ls' : List Line}
    (h : replaceFirst key value ls = some ls') (name : Bytes) :
    valuesOf name ls' =
      if name = key then value :: (valuesOf key ls).drop 1 else valuesOf name ls := by
  induction ls generalizing ls' with
  | nil => simp [replaceFirst] at h
  | cons l ls ih =>
    rw [replaceFirst] at h
    split_ifs at h with hl
    · cases h
      by_cases hname : name = key
      · simp [valuesOf, hl, hname]
      · simp [valuesOf, hl, hname, Ne.symm hname]
    · obtain ⟨rest, hrest, rfl⟩ := Option.map_eq_some_iff.1 h
      by_cases hname : name = key
      · subst hname
        simp [valuesOf_cons, hl, ih hrest]
      · simp [valuesOf_cons, hname, ih hrest]

theorem valuesOf_of_replaceFirst_none {key value : Bytes} {ls : List Line}
    (h : replaceFirst key value ls = none) : valuesOf key ls = [] := by
  induction ls with
  | nil => rfl
  | cons l ls ih =>
    rw [replaceFirst] at h
    split_ifs at h with hl
    simpa [valuesOf, hl] using ih (Option.map_eq_none_iff.1 h)

section

variable (h : Map) {key name : Bytes} (value : Bytes)

theorem valuesOf_insertSorted_of_ne (hne : name ≠ key) (es : List Line) :
    valuesOf name (insertSorted ⟨key, value⟩ es) = valuesOf name es := by
  induction es with
  | nil => simp [insertSorted, valuesOf, Ne.symm hne]
  | cons x xs ih =>
    rw [insertSorted]
    split_ifs
    · simp [valuesOf, Ne.symm hne]
    · rw [valuesOf_cons, valuesOf_cons, ih]

theorem valuesOf_set_of_ne (hne : name ≠ canonicalHeaderKey key) :
    valuesOf name (h.set key value).entries = valuesOf name h.entries := by
  unfold set
  dsimp only
  cases hr : replaceFirst (canonicalHeaderKey key) value h.entries with
  | none => exact valuesOf_insertSorted_of_ne value hne h.entries
  | some es =>
    rw [Option.getD_some, valuesOf_replaceFirst hr, if_neg hne]

theorem valuesOf_insertSorted_self {es : List Line} (hnone : valuesOf key es = []) :
    valuesOf key (insertSorted ⟨key, value⟩ es) = [value] := by
  induction es with
  | nil => simp [insertSorted, valuesOf]
  | cons x xs ih =>
    have hx : x.name ≠ key := by
      intro hx
      simp [valuesOf, hx] at hnone
    have hxs : valuesOf key xs = [] := by simpa [valuesOf, hx] using hnone
    rw [insertSorted]
    split_ifs
    · simpa [valuesOf, hx] using hxs
    · simpa [valuesOf, hx] using ih hxs

theorem valuesOf_set (key : Bytes) :
    valuesOf (canonicalHeaderKey key) (h.set key value).entries =
      value :: (valuesOf (canonicalHeaderKey key) h.entries).drop 1 := by
  unfold set
  dsimp only
  cases hr : replaceFirst (canonicalHeaderKey key) value h.entries with
  | none =>
    have hnone := valuesOf_of_replaceFirst_none hr
    rw [Option.getD_none, valuesOf_insertSorted_self value hnone, hnone, drop_nil]
  | some es => rw [Option.getD_some, valuesOf_replaceFirst hr, if_pos rfl]

theorem length_valuesOf_set_iff (key : Bytes) (h : Map) :
    (valuesOf name (h.set key value).entries).length ≤ 1 ↔
      (valuesOf name h.entries).length ≤ 1 := by
  by_cases hname : name = canonicalHeaderKey key
  · subst hname
    rw [valuesOf_set, length_cons, length_drop]
    omega
  · rw [valuesOf_set_of_ne h value hname]

theorem valuesOf_foldl_set {α : Type*} (key value : α → Bytes) (xs : List α) (name : Bytes)
    (h : Map) :
    valuesOf name (xs.foldl (fun m x => m.set (key x) (value x)) h).entries =
      match ((xs.filter fun x => canonicalHeaderKey (key x) = name).map value).getLast? with
      | some v => v :: (valuesOf name h.entries).drop 1
      | none => valuesOf name h.entries := by
  induction xs generalizing h with
  | nil => rfl
  | cons x xs ih =>
    rw [foldl_cons, ih]
    by_cases hx : canonicalHeaderKey (key x) = name
    · subst hx
      rw [valuesOf_set, filter_cons_of_pos (by simp), map_cons, getLast?_cons]
      cases ((xs.filter fun y => canonicalHeaderKey (key y) = canonicalHeaderKey (key x)).map
        value).getLast? <;> rfl
    · rw [valuesOf_set_of_ne h (value x) (Ne.symm hx), filter_cons_of_neg (by simpa using hx)]

theorem mem_insertSorted {e x : Line} {es : List Line} :
    x ∈ insertSorted e es ↔ x = e ∨ x ∈ es := by
  induction es with
  | nil => simp [insertSorted]
  | cons y ys ih =>
    rw [insertSorted]
    split_ifs
    · simp
    · simp only [mem_cons, ih]
      exact or_left_comm

theorem mem_replaceFirst {e : Line} {es es' : List Line}
    (hr : replaceFirst key value es = some es') (he : e ∈ es') : e = ⟨key, value⟩ ∨ e ∈ es := by
  induction es generalizing es' with
  | nil => simp [replaceFirst] at hr
  | cons y ys ih =>
    rw [replaceFirst] at hr
    split_ifs at hr
    · cases hr
      exact (mem_cons.1 he).imp_right (mem_cons_of_mem y)
    · obtain ⟨zs, hzs, rfl⟩ := Option.map_eq_some_iff.1 hr
      rcases mem_cons.1 he with rfl | hmem
      · simp
      · exact (ih hzs hmem).imp_right (mem_cons_of_mem y)

section

variable {h : Map} (hcanonical : ∀ e ∈ h.entries, isCanonical e.name = true)
include hcanonical

theorem canonical_replaceFirst {key : Bytes} (hkey : isCanonical key) {value : Bytes}
    {added : List Line} (hadded : ∀ e ∈ added, e = ⟨key, value⟩ ∨ e ∈ h.entries) :
    ∀ e ∈ (replaceFirst key value h.entries).getD added, isCanonical e.name = true := by
  intro e he
  have hcases : e = ⟨key, value⟩ ∨ e ∈ h.entries := by
    cases hr : replaceFirst key value h.entries with
    | none => exact hadded e (by simpa [hr] using he)
    | some es => exact mem_replaceFirst value hr (by simpa [hr] using he)
  rcases hcases with rfl | hmem
  · exact hkey
  · exact hcanonical e hmem

theorem canonical_set (key value : Bytes) :
    ∀ e ∈ (h.set key value).entries, isCanonical e.name = true :=
  canonical_replaceFirst hcanonical (isCanonical_canonicalHeaderKey key) fun _ => mem_insertSorted.1

theorem canonical_setEntryRaw {key : Bytes} (hkey : isCanonical key) (value : Bytes) :
    ∀ e ∈ (h.setEntryRaw key value).entries, isCanonical e.name = true :=
  canonical_replaceFirst hcanonical hkey fun _ he =>
    (mem_append.1 he).symm.imp_left mem_singleton.1

theorem canonical_appendEntry (key value : Bytes) :
    ∀ e ∈ (h.appendEntry key value).entries, isCanonical e.name = true :=
  forall_mem_concat.2 ⟨hcanonical, isCanonical_canonicalHeaderKey key⟩

theorem canonical_del (key : Bytes) : ∀ e ∈ (h.del key).entries, isCanonical e.name = true :=
  fun e he => hcanonical e (mem_of_mem_eraseP he)

end

theorem valuesOf_setEntryRaw (key name : Bytes) :
    valuesOf name (h.setEntryRaw key value).entries =
      if name = key then value :: (valuesOf key h.entries).drop 1 else valuesOf name h.entries := by
  unfold setEntryRaw
  cases hr : replaceFirst key value h.entries with
  | some ls => exact valuesOf_replaceFirst hr name
  | none =>
    have hnone := valuesOf_of_replaceFirst_none hr
    by_cases hname : name = key
    · subst hname
      simp only [valuesOf] at hnone
      simp [valuesOf, hnone]
    · simp [valuesOf, hname, Ne.symm hname]

theorem valuesOf_setEntryRaw_of_ne (hne : name ≠ key) :
    valuesOf name (h.setEntryRaw key value).entries = valuesOf name h.entries := by
  rw [valuesOf_setEntryRaw, if_neg hne]

theorem valuesOf_del_of_ne (hne : name ≠ canonicalHeaderKey key) :
    valuesOf name (h.del key).entries = valuesOf name h.entries := by
  unfold del
  induction h.entries with
  | nil => rfl
  | cons e es ih =>
    by_cases he : e.name = canonicalHeaderKey key
    · have hname : e.name ≠ name := he ▸ Ne.symm hne
      rw [eraseP_cons_of_pos (by simpa using he)]
      simp [valuesOf, hname]
    · rw [eraseP_cons_of_neg (by simpa using he)]
      rw [valuesOf_cons, valuesOf_cons, ih]

end

theorem valuesOf_del_self (h : Map) (hk : canonicalHeaderKey key = key) :
    valuesOf key (h.del key).entries = (valuesOf key h.entries).drop 1 := by
  unfold del
  rw [hk]
  induction h.entries with
  | nil => rfl
  | cons e es ih =>
    by_cases he : e.name = key
    · simp [valuesOf, he]
    · rw [eraseP_cons_of_neg (by simpa using he)]
      rwa [valuesOf_cons, valuesOf_cons, if_neg he, if_neg he]

theorem valuesOf_eq_nil_iff {name : Bytes} {ls : List Line} :
    valuesOf name ls = [] ↔ ∀ l ∈ ls, l.name ≠ name := by
  simp [valuesOf]

theorem has_of_isCanonical (hk : isCanonical key) :
    h.has key ↔ valuesOf key h.entries ≠ [] := by
  rw [has, canonicalHeaderKey_of_isCanonical hk, ne_eq, valuesOf_eq_nil_iff]
  simp

theorem get_of_canonical (hh : ∀ e ∈ h.entries, isCanonical e.name) (key : Bytes) :
    h.get key = ((valuesOf (canonicalHeaderKey key) h.entries).head?).getD [] := by
  by_cases hkey : isCanonical key = true
  · rw [get_of_isCanonical hkey, canonicalHeaderKey_of_isCanonical hkey]
    rfl
  · have hnone : valuesOf key h.entries = [] :=
      valuesOf_eq_nil_iff.2 fun e he heq => hkey (heq ▸ hh e he)
    rw [get, first?, hnone, canonicalHeaderKey]
    simp only [hkey]
    rfl

theorem valuesOf_orderedInsert (name : Bytes) (e : Line) (es : List Line) :
    valuesOf name (es.orderedInsert nameLE e) = valuesOf name (e :: es) := by
  induction es with
  | nil => rfl
  | cons x es ih =>
    rw [orderedInsert_cons]
    split_ifs with hle
    · rfl
    · -- the entry moves past one with another name
      have hne : x.name ≠ e.name := by
        intro heq
        refine hle ?_
        show ¬ x.name < e.name
        rw [heq]
        exact List.lt_irrefl _
      simp only [valuesOf_cons, ih]
      split_ifs with hx he
      · exact absurd (hx.trans he.symm) hne
      all_goals rfl

theorem valuesOf_sortEntries (name : Bytes) (h : Map) :
    valuesOf name h.sortEntries.entries = valuesOf name h.entries := by
  obtain ⟨es⟩ := h
  show valuesOf name (es.insertionSort nameLE) = valuesOf name es
  induction es with
  | nil => rfl
  | cons e es ih =>
    rw [insertionSort_cons, valuesOf_orderedInsert, valuesOf_cons, valuesOf_cons, ih]

end Map

/-! ## Lines of one name -/

theorem valuesOf_append (name : Bytes) (ls ms : List Line) :
    valuesOf name (ls ++ ms) = valuesOf name ls ++ valuesOf name ms := by
  simp [valuesOf]

theorem valuesOf_filter (name : Bytes) (p : Bytes → Bool) (ls : List Line) :
    valuesOf name (ls.filter fun l => p l.name) = if p name then valuesOf name ls else [] := by
  rw [valuesOf, filter_filter]
  split_ifs with hp
  · congr 1
    refine filter_congr fun l _ => ?_
    by_cases hl : l.name = name <;> simp [hl, hp]
  · rw [map_eq_nil_iff, filter_eq_nil_iff]
    intro l _ hl
    simp only [and_eq_true, decide_eq_true_eq] at hl
    exact hp (hl.1 ▸ hl.2)

theorem valuesOf_singleton_of_ne {name key value : Bytes} (h : name ≠ key) :
    valuesOf name [⟨key, value⟩] = [] := by
  simp [valuesOf, Ne.symm h]

theorem count_valuesOf (l : Line) (ls : List Line) :
    (valuesOf l.name ls).count l.value = ls.count l := by
  induction ls with
  | nil => rfl
  | cons m ls ih =>
    rw [count_cons, ← ih, valuesOf_cons]
    by_cases hname : m.name = l.name
    · have hline : (m == l) = (m.value == l.value) := by
        cases m
        cases l
        simp_all
      rw [if_pos hname, count_cons, hline]
    · have hline : (m == l) = false := by
        simpa using fun heq : m = l => hname (heq ▸ rfl)
      rw [if_neg hname, hline]
      rfl

/-- Lines without those of some fields are permutations exactly if those of every other field are.
-/
theorem perm_filter_iff {names : List Bytes} {ls ms : List Line} :
    (ls.filter fun l => l.name ∉ names).Perm (ms.filter fun l => l.name ∉ names) ↔
      ∀ name, name ∉ names → (valuesOf name ls).Perm (valuesOf name ms) := by
  simp only [perm_iff_count]
  constructor
  · intro h name hname v
    have hline := h ⟨name, v⟩
    rw [count_filter (by simpa using hname), count_filter (by simpa using hname)] at hline
    exact (count_valuesOf ⟨name, v⟩ ls).trans (hline.trans (count_valuesOf ⟨name, v⟩ ms).symm)
  · intro h l
    by_cases hname : l.name ∈ names
    · rw [count_eq_zero.2 fun hmem => by simp [hname] at hmem,
        count_eq_zero.2 fun hmem => by simp [hname] at hmem]
    · rw [count_filter (by simpa using hname), count_filter (by simpa using hname),
        ← count_valuesOf, ← count_valuesOf]
      exact h l.name hname l.value

/-! ## Headers as they arrive -/

def setCookie : Bytes := ascii "Set-Cookie"

/-- A message header of `fasthttp`: its lines, with names in canonical form. -/
structure Raw where
  lines : List Line
deriving DecidableEq

namespace Raw

def peekAll (h : Raw) (key : Bytes) : List Bytes := valuesOf key h.lines

/-- `Peek`: the first line with the name, or all cookies of a response. -/
def peek (h : Raw) (key : Bytes) : Bytes :=
  if key = setCookie then List.intercalate (ascii "; ") (h.peekAll key)
  else ((h.peekAll key).head?).getD []

def add (h : Raw) (key value : Bytes) : Raw := ⟨h.lines ++ [⟨key, value⟩]⟩

/-- `Set`: the first line with the name is replaced, later ones stay. -/
def set (h : Raw) (key value : Bytes) : Raw :=
  ⟨(Map.replaceFirst key value h.lines).getD (h.lines ++ [⟨key, value⟩])⟩

/-- `Del`: every line with the name goes. -/
def del (h : Raw) (key : Bytes) : Raw := ⟨h.lines.filter fun l => l.name ≠ key⟩

def Canonical (h : Raw) : Prop := ∀ l ∈ h.lines, isCanonical l.name = true

theorem Canonical.set {h : Raw} (hh : h.Canonical) {key : Bytes} (hk : isCanonical key)
    (value : Bytes) : (h.set key value).Canonical :=
  Map.canonical_setEntryRaw (h := ⟨h.lines⟩) hh hk value

theorem Canonical.del {h : Raw} (hh : h.Canonical) (key : Bytes) : (h.del key).Canonical :=
  fun l hl => hh l (mem_of_mem_filter hl)

theorem peekAll_set (h : Raw) (key value name : Bytes) :
    (h.set key value).peekAll name =
      if name = key then value :: (h.peekAll key).drop 1 else h.peekAll name :=
  Map.valuesOf_setEntryRaw ⟨h.lines⟩ value key name

theorem peekAll_set_of_ne {name key : Bytes} (h : name ≠ key) (hdr : Raw) (value : Bytes) :
    (hdr.set key value).peekAll name = hdr.peekAll name := by
  rw [peekAll_set, if_neg h]

theorem peekAll_del (h : Raw) (key name : Bytes) :
    (h.del key).peekAll name = if name = key then [] else h.peekAll name := by
  rw [peekAll, del, valuesOf_filter name fun n => n ≠ key]
  by_cases hname : name = key <;> simp [peekAll]

theorem peekAll_del_self (h : Raw) (key : Bytes) : (h.del key).peekAll key = [] :=
  (h.peekAll_del key key).trans (if_pos rfl)

theorem peekAll_del_of_ne (h : Raw) {key name : Bytes} (hne : name ≠ key) :
    (h.del key).peekAll name = h.peekAll name :=
  (h.peekAll_del key name).trans (if_neg hne)

end Raw

/-- `FromFastHTTP`: lines with no name or no value are left out. -/
def fromFastHTTP (h : Raw) : Map :=
  Map.sortEntries ⟨h.lines.filter fun l => l.name ≠ [] && l.value ≠ []⟩

theorem valuesOf_fromFastHTTP {key : Bytes} (hk : key ≠ []) (h : Raw) :
    valuesOf key (fromFastHTTP h).entries = (h.peekAll key).filter (· ≠ []) := by
  rw [fromFastHTTP, Map.valuesOf_sortEntries]
  unfold Raw.peekAll valuesOf
  rw [filter_map, filter_filter, filter_filter]
  congr 1
  refine filter_congr fun l _ => ?_
  by_cases hl : l.name = key <;> simp [hl, hk]

end Bouine.Header
