import Bouine.Cache.DeltaSeconds
import Bouine.Cache.DownstreamCap
import Bouine.Cache.Lifetime
import Bouine.Cache.Range
import Bouine.Cache.ResponseRewrites

/-! # Partial responses

What `serveRange` (`internal/cache/range.go`) writes for the ranges it has resolved, and how it
reads a Range line, compared with RFC 9110 §14.1.
-/

namespace Bouine.Cache

open Lib Header
open List hiding splitOn

/-! ## What is written -/

/-- `body[lo:hi]`; there is none if the bounds are not in order. -/
def slice (body : Bytes) (lo hi : Int) : Option Bytes :=
  if 0 ≤ lo ∧ lo ≤ hi ∧ hi ≤ body.length then some ((body.drop lo.toNat).take (hi - lo).toNat)
  else none

def contentRangeText (part : Int × Int) (size : Int) : Bytes :=
  ascii "bytes " ++ formatInt part.1 ++ ascii "-" ++ formatInt part.2 ++ ascii "/" ++ formatInt size

/-- The response; a length or type it lacks is that of the transport. -/
structure RangeResponse where
  status : Nat
  contentRange : Option Bytes
  contentLength : Option Bytes
  contentType : Option Bytes
  body : Bytes
deriving DecidableEq

def Key.hex (k : Key) : Bytes :=
  let digits (w : UInt64) := (Nat.toDigits 16 w.toNat).map byte
  let padded (w : UInt64) := List.replicate (16 - (digits w).length) (byte '0') ++ digits w
  padded k.hi ++ padded k.lo

def boundary (obj : Stored) : Bytes := ascii "bouine-range-" ++ obj.key.hex

def partHead (obj : Stored) (part : Int × Int) : Bytes :=
  let ct := obj.header.get Field.contentType
  ascii "\r\n--" ++ boundary obj ++ ascii "\r\nContent-Type: " ++
    (if ct = [] then ascii "application/octet-stream" else ct) ++ ascii "\r\nContent-Range: " ++
    contentRangeText part obj.bodySize ++ ascii "\r\n\r\n"

def writeParts (obj : Stored) (parts : List (Int × Int)) : Option Bytes :=
  (parts.mapM fun part => (slice obj.body part.1 (part.2 + 1)).map (partHead obj part ++ ·)).map
    fun texts => texts.flatten ++ ascii "\r\n--" ++ boundary obj ++ ascii "--\r\n"

/-- The rest of `serveRange`; nothing if a slice is out of bounds. -/
def writeRange (head : Bool) (obj : Stored) (answer : RangeAnswer) : Option RangeResponse :=
  if answer.status = 416 then
    some ⟨416, some (ascii "bytes */" ++ formatInt obj.bodySize), none, none, []⟩
  else
    match answer.parts with
    | [part] =>
      (if head then some [] else slice obj.body part.1 (part.2 + 1)).map fun bytes =>
        ⟨206, some (contentRangeText part obj.bodySize),
          some (formatInt (part.2 - part.1 + 1)), none, bytes⟩
    | parts =>
      (if head then some [] else writeParts obj parts).map fun bytes =>
        ⟨206, none, none, some (ascii "multipart/byteranges; boundary=" ++ boundary obj), bytes⟩

/-! ## Range sets -/

/-- A range of RFC 9110 §14.1.1; its last position is not before the first. -/
inductive RangeSpec where
  | int (first : Nat) (last : Option Nat) (ordered : ∀ l ∈ last, first ≤ l)
  | suffix (length : Nat)
deriving DecidableEq

namespace RangeSpec

def satisfiable (size : Nat) : RangeSpec → Prop
  | int first _ _ => first < size
  | suffix length => length ≠ 0

instance (size : Nat) : DecidablePred (satisfiable size)
  | int first _ _ => inferInstanceAs (Decidable (first < size))
  | suffix length => inferInstanceAs (Decidable (length ≠ 0))

def resolve (size : Nat) : RangeSpec → Int × Int
  | int first last _ => (first, ((last.map Nat.cast).getD (size - 1 : Int)) ⊓ (size - 1))
  | suffix length => (0 ⊔ (size - length : Int), size - 1)

/-- Its numbers are in the range of `int64`. -/
def Fits : RangeSpec → Prop
  | int _ last _ => ∀ l ∈ last, (l : Int) ≤ maxDuration
  | suffix length => (length : Int) ≤ maxDuration

end RangeSpec

def readNumber (s : Bytes) : Option Nat := if IsDecimal s then some (decimal s) else none

def readSpec (s : Bytes) : Option RangeSpec :=
  if byte '-' ∉ s then none
  else
    let first := (cutAt (byte '-') s).1
    let last := (cutAt (byte '-') s).2
    if first = [] then do
      let length ← readNumber last
      some (.suffix length)
    else do
      let first ← readNumber first
      if last = [] then some (.int first none (by simp))
      else do
        let last ← readNumber last
        if h : first ≤ last then some (.int first (some last) (by simpa using h)) else none

def rangeElements (s : Bytes) : List Bytes := (splitOn (byte ',') s).map trimOWS

def readRangeSet (s : Bytes) : Option (List RangeSpec) :=
  let elements := (rangeElements s).filter (· ≠ [])
  if elements = [] then none else elements.mapM readSpec

/-! ## Reading one range -/

variable {s : Bytes} {r : RangeSpec}

theorem parseInt64_of_isDecimal (hs : IsDecimal s) :
    parseInt64 s = if (decimal s : Int) ≤ maxDuration then some (decimal s : Int) else none := by
  have hsign : ∀ c, isDigit c → c ≠ byte '-' ∧ c ≠ byte '+' :=
    forall_byte (by decide +kernel)
  have hhead : s.head? ≠ some (byte '-') ∧ s.head? ≠ some (byte '+') := by
    refine ⟨fun h => ?_, fun h => ?_⟩
    · exact (hsign _ (hs.2 _ (mem_of_mem_head? h))).1 rfl
    · exact (hsign _ (hs.2 _ (mem_of_mem_head? h))).2 rfl
  have hdigits : s.all isDigit = true := all_eq_true.2 hs.2
  have hmin : minDuration ≤ (decimal s : Int) := by
    unfold minDuration
    omega
  unfold parseInt64
  simp only [hhead.1, hhead.2, or_self, if_false, hs.1, hdigits]
  rw [show s.foldl (fun (n : Int) c => n * 10 + (c.toNat - 48)) 0 = (decimal s : Int) from
    foldl_digits (f := fun n => n) (fun n c hdigit => by omega) hs.2 0]
  simp [hmin]

theorem trimSpace_of_isDecimal (hs : IsDecimal s) : trimSpace s = s :=
  trimSpace_of_no_spaces fun c hc => (digit_plain c (hs.2 c hc)).2.1

theorem readNumber_eq_some {n : Nat} (h : readNumber s = some n) : IsDecimal s ∧ decimal s = n := by
  unfold readNumber at h
  split_ifs at h with hs
  exact ⟨hs, Option.some.inj h⟩

theorem readSpec_inv (h : readSpec s = some r) :
    byte '-' ∈ s ∧
    ((cutAt (byte '-') s).1 = [] ∧ IsDecimal (cutAt (byte '-') s).2 ∧
        r = .suffix (decimal (cutAt (byte '-') s).2) ∨
      IsDecimal (cutAt (byte '-') s).1 ∧ (cutAt (byte '-') s).2 = [] ∧
        (∃ h, r = .int (decimal (cutAt (byte '-') s).1) none h) ∨
      IsDecimal (cutAt (byte '-') s).1 ∧ IsDecimal (cutAt (byte '-') s).2 ∧
        ∃ h, r = .int (decimal (cutAt (byte '-') s).1) (some (decimal (cutAt (byte '-') s).2)) h) := by
  unfold readSpec at h
  split_ifs at h with hdash
  refine ⟨hdash, ?_⟩
  dsimp only at h
  split_ifs at h with hfirst hlast
  · obtain ⟨n, hn, hr⟩ := Option.bind_eq_some_iff.1 h
    obtain ⟨hdec, rfl⟩ := readNumber_eq_some hn
    exact .inl ⟨hfirst, hdec, (Option.some.inj hr).symm⟩
  · obtain ⟨n, hn, hr⟩ := Option.bind_eq_some_iff.1 h
    obtain ⟨hdec, rfl⟩ := readNumber_eq_some hn
    exact .inr (.inl ⟨hdec, hlast, _, (Option.some.inj hr).symm⟩)
  · obtain ⟨n, hn, hr⟩ := Option.bind_eq_some_iff.1 h
    obtain ⟨hdec, rfl⟩ := readNumber_eq_some hn
    obtain ⟨m, hm, hr⟩ := Option.bind_eq_some_iff.1 hr
    obtain ⟨hdec', rfl⟩ := readNumber_eq_some hm
    split_ifs at hr
    exact .inr (.inr ⟨hdec, hdec', _, (Option.some.inj hr).symm⟩)

theorem trimSpace_of_readSpec (h : readSpec s = some r) : trimSpace s = s := by
  obtain ⟨-, hparts⟩ := readSpec_inv h
  have hdash : byte '-' < 0x80 ∧ [byte '-'] ∉ spaces := by decide
  have hdigit (c : UInt8) (hc : c ∈ (cutAt (byte '-') s).1 ∨ c ∈ (cutAt (byte '-') s).2) :
      isDigit c = true := by
    rcases hparts with ⟨h1, h2, -⟩ | ⟨h1, h2, -⟩ | ⟨h1, h2, -⟩
    · exact h2.2 c (by simpa [h1] using hc)
    · exact h1.2 c (by simpa [h2] using hc)
    · exact hc.elim (h1.2 c) (h2.2 c)
  refine trimSpace_of_no_spaces fun c hc => ?_
  by_cases hne : c = byte '-'
  · exact hne ▸ hdash
  · exact (digit_plain c (hdigit c ((mem_cutAt hne s).2 hc))).2.1

variable {size : Nat}

theorem parseRange_of_readSpec (h : readSpec s = some r)
    (hsize : (size : Int) ≤ maxDuration) :
    parseRange s size = some (r.resolve size) ∧ r.satisfiable size ∧ r.Fits ∨
      parseRange s size = none ∧ ¬ (r.satisfiable size ∧ r.Fits) := by
  obtain ⟨hdash, hparts⟩ := readSpec_inv h
  unfold parseRange
  rw [if_neg (not_not.2 hdash)]
  rcases hparts with ⟨hfirst, hlast, rfl⟩ | ⟨hfirst, hlast, -, rfl⟩ | ⟨hfirst, hlast, hordered, rfl⟩
  · simp only [hfirst, trimSpace_nil, trimSpace_of_isDecimal hlast,
      parseInt64_of_isDecimal hlast, RangeSpec.satisfiable, RangeSpec.Fits, RangeSpec.resolve]
    by_cases hfits : (decimal (cutAt (byte '-') s).2 : Int) ≤ maxDuration
    · by_cases hzero : decimal (cutAt (byte '-') s).2 = 0
      · simp [hzero]
      · simp [hfits, hzero]
    · simp [hfits]
  · simp only [hlast, trimSpace_nil, trimSpace_of_isDecimal hfirst, hfirst.1,
      parseInt64_of_isDecimal hfirst, RangeSpec.satisfiable, RangeSpec.Fits, RangeSpec.resolve]
    by_cases hfits : (decimal (cutAt (byte '-') s).1 : Int) ≤ maxDuration
    · by_cases hin : decimal (cutAt (byte '-') s).1 < size <;> simp [hfits, hin]
    · have hin : ¬ decimal (cutAt (byte '-') s).1 < size := by omega
      simp [hfits, hin]
  · simp only [trimSpace_of_isDecimal hlast, trimSpace_of_isDecimal hfirst, hfirst.1, hlast.1,
      parseInt64_of_isDecimal hfirst, parseInt64_of_isDecimal hlast, RangeSpec.satisfiable,
      RangeSpec.Fits, RangeSpec.resolve]
    by_cases hin : decimal (cutAt (byte '-') s).1 < size
    · have hfits : (decimal (cutAt (byte '-') s).1 : Int) ≤ maxDuration := by omega
      have hle := hordered _ rfl
      by_cases hfits' : (decimal (cutAt (byte '-') s).2 : Int) ≤ maxDuration
      · simp [hfits, hfits']
        split_ifs <;> omega
      · simp [hfits']
    · by_cases hfits : (decimal (cutAt (byte '-') s).1 : Int) ≤ maxDuration <;> simp [hin]

theorem parseRange_bounds {part : Int × Int} (h : parseRange s size = some part) :
    0 ≤ part.1 ∧ part.1 ≤ part.2 + 1 ∧ part.2 + 1 ≤ size := by
  unfold parseRange at h
  split_ifs at h
  dsimp only at h
  split_ifs at h
  all_goals
    obtain ⟨n, -, h⟩ := Option.bind_eq_some_iff.1 h
    split_ifs at h
  · cases h
    omega
  · cases h
    omega
  · obtain ⟨m, -, h⟩ := Option.bind_eq_some_iff.1 h
    split_ifs at h
    all_goals
      cases h
      omega

/-! ## Reading a set -/

theorem mapM_eq_some_iff {α β : Type*} {f : α → Option β} {xs : List α} {ys : List β} :
    xs.mapM f = some ys ↔ List.Forall₂ (fun x y => f x = some y) xs ys := by
  induction xs generalizing ys with
  | nil => simp
  | cons x xs ih =>
    rw [mapM_cons]
    constructor
    · intro h
      obtain ⟨y, hy, h⟩ := Option.bind_eq_some_iff.1 h
      obtain ⟨zs, hzs, h⟩ := Option.bind_eq_some_iff.1 h
      cases h
      exact List.Forall₂.cons hy (ih.1 hzs)
    · rintro (_ | ⟨hy, hys⟩)
      rw [hy, ih.2 hys]
      rfl

theorem exists_of_mem_forall₂ {α β : Type*} {R : α → β → Prop} {xs : List α} {ys : List β}
    (h : List.Forall₂ R xs ys) : (∀ y ∈ ys, ∃ x ∈ xs, R x y) ∧ ∀ x ∈ xs, ∃ y ∈ ys, R x y := by
  induction h with
  | nil => simp
  | cons hxy _ ih =>
    simp only [mem_cons, exists_eq_or_imp, forall_eq_or_imp]
    exact ⟨⟨.inl hxy, fun y hy => .inr (ih.1 y hy)⟩, .inl hxy, fun x hx => .inr (ih.2 x hx)⟩

/-- The ranges of a set with an element each, satisfiable and with numbers that fit. -/
def Answerable (size : Nat) (elements : List Bytes) (set : List RangeSpec) : Prop :=
  (∀ e ∈ elements, e ≠ []) ∧ ∀ r ∈ set, r.satisfiable size ∧ r.Fits

theorem mapM_parseRange (hsize : (size : Int) ≤ maxDuration) {ps : List Bytes}
    {set : List RangeSpec} (h : ((ps.map trimOWS).filter (· ≠ [])).mapM readSpec = some set) :
    (ps.mapM fun p => parseRange (trimSpace p) size) = some (set.map (RangeSpec.resolve size)) ∧
        Answerable size (ps.map trimOWS) set ∨
      (ps.mapM fun p => parseRange (trimSpace p) size) = none ∧
        ¬ Answerable size (ps.map trimOWS) set := by
  induction ps generalizing set with
  | nil =>
    obtain rfl : set = [] := by simpa using h
    exact .inl ⟨rfl, by simp [Answerable]⟩
  | cons p ps ih =>
    by_cases hp : trimOWS p = []
    · -- an element without a range is taken for a wrong one
      have hnone : parseRange (trimSpace p) size = none := by
        rw [← trimSpace_trimOWS, hp]
        rfl
      refine .inr ⟨by rw [mapM_cons, hnone]; rfl, fun hall => ?_⟩
      exact hall.1 (trimOWS p) (by simp) hp
    · rw [map_cons, filter_cons_of_pos (by simpa using hp), mapM_eq_some_iff] at h
      obtain _ | ⟨hr, hrest⟩ := h
      rename_i r set
      have htrim : trimSpace p = trimOWS p := by
        rw [← trimSpace_trimOWS, trimSpace_of_readSpec hr]
      rw [mapM_cons, htrim]
      rcases parseRange_of_readSpec hr hsize with ⟨hsome, hsat⟩ | ⟨hnone, hsat⟩
      · rcases ih (mapM_eq_some_iff.2 hrest) with ⟨hmap, hall⟩ | ⟨hmap, hall⟩
        · refine .inl ⟨by rw [hsome, hmap]; rfl, ?_⟩
          simp only [Answerable, map_cons, forall_mem_cons] at hall ⊢
          exact ⟨⟨hp, hall.1⟩, hsat, hall.2⟩
        · refine .inr ⟨by rw [hsome, hmap]; rfl, fun hboth => hall ?_⟩
          simp only [Answerable, map_cons, forall_mem_cons] at hboth ⊢
          exact ⟨hboth.1.2, hboth.2.2⟩
      · refine .inr ⟨by rw [hnone]; rfl, fun hboth => hsat ?_⟩
        exact hboth.2 r (.head _)

/-! ## Exact answers -/

structure FullObject where
  obj : Stored
  size : obj.bodySize = obj.body.length
  fits : (obj.body.length : Int) ≤ maxDuration

/-- The bytes are those from the first position of the part to the last. -/
structure PartOf (body : Bytes) (part : Int × Int) (bytes : Bytes) : Prop where
  inside : 0 ≤ part.1 ∧ part.1 ≤ part.2 ∧ part.2 < body.length
  content : bytes = (body.drop part.1.toNat).take (part.2 + 1 - part.1).toNat
  length : (bytes.length : Int) = part.2 - part.1 + 1

/-- A response says of its parts what it has: of one, range and length in the header; of several,
each range before its part. -/
def Describes (obj : Stored) (parts : List (Int × Int)) (w : RangeResponse) : Prop :=
  ∃ bytes : List Bytes, List.Forall₂ (PartOf obj.body) parts bytes ∧
    match parts, bytes with
    | [part], [b] => w.contentRange = some (contentRangeText part obj.body.length) ∧
        w.contentLength = some (formatInt b.length) ∧ w.body = b
    | parts, bytes => w.body = (List.zipWith (fun part b => partHead obj part ++ b) parts bytes).flatten ++
        ascii "\r\n--" ++ boundary obj ++ ascii "--\r\n"

/-- The answer to a Range line with the unit of bytes and the set `s` is that of RFC 9110. -/
structure RangeExact (o : FullObject) (header : Map) (s : Bytes) : Prop where
  ignored : readRangeSet s = none → serveRange header o.obj = none
  unsatisfiable : (∃ a, serveRange header o.obj = some a ∧ a.status = 416) ↔
    ∃ set, readRangeSet s = some set ∧ ∀ r ∈ set, ¬ r.satisfiable o.obj.body.length
  described : ∀ a, serveRange header o.obj = some a → a.status = 206 →
    ∃ w, writeRange false o.obj a = some w ∧ Describes o.obj a.parts w
  sliced : ∀ a, serveRange header o.obj = some a → ∀ head, (writeRange head o.obj a).isSome = true

section

variable (o : FullObject) {header : Map} {s : Bytes}

theorem serveRange_bytes (hget : header.get Field.range = ascii "bytes=" ++ s) :
    serveRange header o.obj = some
      (match (splitOn (byte ',') s).mapM fun p => parseRange (trimSpace p) o.obj.body.length with
      | none => ⟨416, []⟩
      | some parts => ⟨206, parts⟩) := by
  have hdrop : (ascii "bytes=" ++ s).drop 6 = s := rfl
  unfold serveRange
  dsimp only
  rw [hget, hdrop, o.size]
  cases (splitOn (byte ',') s).mapM fun p => parseRange (trimSpace p) o.obj.body.length <;> rfl

def InBounds (body : Bytes) (part : Int × Int) : Prop :=
  0 ≤ part.1 ∧ part.1 ≤ part.2 + 1 ∧ part.2 + 1 ≤ body.length

def bytesOf (body : Bytes) (part : Int × Int) : Bytes :=
  (body.drop part.1.toNat).take (part.2 + 1 - part.1).toNat

theorem slice_of_inBounds {body : Bytes} {part : Int × Int} (h : InBounds body part) :
    slice body part.1 (part.2 + 1) = some (bytesOf body part) := by
  obtain ⟨h0, hle, hsize⟩ := h
  rw [slice, if_pos ⟨h0, hle, hsize⟩, bytesOf]

theorem writeParts_of_inBounds {obj : Stored} {parts : List (Int × Int)}
    (hparts : ∀ part ∈ parts, InBounds obj.body part) :
    writeParts obj parts = some ((parts.map fun part => partHead obj part ++
      bytesOf obj.body part).flatten ++ ascii "\r\n--" ++ boundary obj ++ ascii "--\r\n") := by
  have hmap : (parts.mapM fun part => (slice obj.body part.1 (part.2 + 1)).map
      (partHead obj part ++ ·)) =
      some (parts.map fun part => partHead obj part ++ bytesOf obj.body part) := by
    rw [mapM_eq_some_iff, forall₂_map_right_iff, forall₂_same]
    intro part hpart
    rw [slice_of_inBounds (hparts part hpart)]
    rfl
  rw [writeParts, hmap]
  rfl

theorem writeRange_isSome {obj : Stored} {answer : RangeAnswer}
    (hparts : ∀ part ∈ answer.parts, InBounds obj.body part) (head : Bool) :
    (writeRange head obj answer).isSome = true := by
  unfold writeRange
  by_cases hstatus : answer.status = 416
  · rw [if_pos hstatus]
    rfl
  · rw [if_neg hstatus]
    split
    · rename_i part heq
      rw [slice_of_inBounds (hparts part (by rw [heq]; exact mem_singleton_self part))]
      cases head <;> rfl
    · rw [writeParts_of_inBounds hparts]
      cases head <;> rfl

theorem partOf_bytesOf {body : Bytes} {part : Int × Int}
    (h : 0 ≤ part.1 ∧ part.1 ≤ part.2 ∧ part.2 < body.length) :
    PartOf body part (bytesOf body part) where
  inside := h
  content := rfl
  length := by
    rw [bytesOf, length_take, length_drop]
    omega

theorem describes_writeRange (o : FullObject) {parts : List (Int × Int)}
    (hparts : ∀ part ∈ parts, 0 ≤ part.1 ∧ part.1 ≤ part.2 ∧ part.2 < o.obj.body.length) :
    ∃ w, writeRange false o.obj ⟨206, parts⟩ = some w ∧ Describes o.obj parts w := by
  have hbounds : ∀ part ∈ parts, InBounds o.obj.body part := by
    intro part hpart
    have := hparts part hpart
    unfold InBounds
    omega
  have hforall : List.Forall₂ (PartOf o.obj.body) parts (parts.map (bytesOf o.obj.body)) := by
    rw [forall₂_map_right_iff, forall₂_same]
    exact fun part hpart => partOf_bytesOf (hparts part hpart)
  unfold writeRange
  match parts with
  | [] => exact ⟨_, rfl, [], List.Forall₂.nil, rfl⟩
  | [part] =>
    have hpart := partOf_bytesOf (hparts part (mem_singleton_self part))
    dsimp only
    rw [slice_of_inBounds (hbounds part (mem_singleton_self part))]
    refine ⟨_, rfl, [bytesOf o.obj.body part], hforall, ?_, ?_, rfl⟩
    · exact congrArg (fun n => some (contentRangeText part n)) o.size
    · exact congrArg (fun n => some (formatInt n)) hpart.length.symm
  | p :: q :: rest =>
    dsimp only
    rw [writeParts_of_inBounds hbounds]
    refine ⟨_, rfl, _, hforall, ?_⟩
    show _ = (zipWith _ (p :: q :: rest) ((p :: q :: rest).map _)).flatten ++ _ ++ _ ++ _
    rw [zipWith_map_right, zipWith_self]

theorem resolve_inside {size : Nat} (hsize : 0 < size) {r : RangeSpec} (hr : r.satisfiable size) :
    0 ≤ (r.resolve size).1 ∧ (r.resolve size).1 ≤ (r.resolve size).2 ∧
      (r.resolve size).2 < size := by
  cases r with
  | suffix length =>
    simp only [RangeSpec.satisfiable, RangeSpec.resolve] at hr ⊢
    omega
  | int first last ordered =>
    cases last with
    | none =>
      simp only [RangeSpec.satisfiable, RangeSpec.resolve, Option.map_none, Option.getD_none] at hr ⊢
      omega
    | some l =>
      have := ordered l rfl
      simp only [RangeSpec.satisfiable, RangeSpec.resolve, Option.map_some, Option.getD_some] at hr ⊢
      omega

theorem resolve_empty {r : RangeSpec} (hr : r.satisfiable 0) : (r.resolve 0).2 < 0 := by
  cases r with
  | suffix length => simp [RangeSpec.resolve]
  | int first last _ => exact absurd hr (Nat.not_lt_zero first)

variable {set : List RangeSpec}

theorem readRangeSet_inv (h : readRangeSet s = some set) :
    (∃ r, r ∈ set) ∧ ((rangeElements s).filter (· ≠ [])).mapM readSpec = some set := by
  unfold readRangeSet at h
  dsimp only at h
  split_ifs at h with hne
  refine ⟨exists_mem_of_ne_nil set fun hset => hne ?_, h⟩
  exact forall₂_nil_right_iff.1 (hset ▸ mapM_eq_some_iff.1 h)

section

variable (hget : header.get Field.range = ascii "bytes=" ++ s)
include hget

theorem inBounds_of_serveRange {a : RangeAnswer} (ha : serveRange header o.obj = some a) :
    ∀ part ∈ a.parts, InBounds o.obj.body part := by
  rw [serveRange_bytes o hget] at ha
  cases ha
  split
  · simp
  · rename_i parts hmap
    intro part hpart
    obtain ⟨p, -, hp⟩ := (exists_of_mem_forall₂ (mapM_eq_some_iff.1 hmap)).1 part hpart
    exact parseRange_bounds hp

theorem serveRange_of_set (hset : readRangeSet s = some set) :
    serveRange header o.obj = some ⟨206, set.map (RangeSpec.resolve o.obj.body.length)⟩ ∧
        Answerable o.obj.body.length (rangeElements s) set ∨
      serveRange header o.obj = some ⟨416, []⟩ ∧
        ¬ Answerable o.obj.body.length (rangeElements s) set := by
  rw [serveRange_bytes o hget]
  rcases mapM_parseRange o.fits (readRangeSet_inv hset).2 with ⟨hmap, hall⟩ | ⟨hmap, hall⟩
  · exact .inl ⟨by rw [hmap], hall⟩
  · exact .inr ⟨by rw [hmap], hall⟩

theorem rangeExact_of_answerable (hset : readRangeSet s = some set) (hne : o.obj.body ≠ [])
    (hall : Answerable o.obj.body.length (rangeElements s) set) : RangeExact o header s := by
  obtain ⟨⟨r, hr⟩, -⟩ := readRangeSet_inv hset
  rcases serveRange_of_set o hget hset with ⟨hserve, -⟩ | ⟨-, hnot⟩
  swap
  · exact absurd hall hnot
  refine ⟨by simp [hset], ⟨?_, ?_⟩, ?_,
    fun a ha head => writeRange_isSome (inBounds_of_serveRange o hget ha) head⟩
  · rintro ⟨a, ha, hstatus⟩
    rw [hserve] at ha
    cases ha
    exact absurd (show 206 = 416 from hstatus) (by decide)
  · rintro ⟨set', hset', hunsat⟩
    rw [hset, Option.some.injEq] at hset'
    subst hset'
    exact absurd (hall.2 r hr).1 (hunsat r hr)
  · intro a ha _
    rw [hserve] at ha
    cases ha
    refine describes_writeRange o fun part hpart => ?_
    obtain ⟨r', hr', rfl⟩ := mem_map.1 hpart
    exact resolve_inside (length_pos_iff.2 hne) (hall.2 r' hr').1

theorem rangeExact_of_unsatisfiable
    (hset : readRangeSet s = some set) (hunsat : ∀ r ∈ set, ¬ r.satisfiable o.obj.body.length) :
    RangeExact o header s := by
  obtain ⟨⟨r, hr⟩, -⟩ := readRangeSet_inv hset
  rcases serveRange_of_set o hget hset with ⟨-, hall⟩ | ⟨hserve, -⟩
  · exact absurd (hall.2 r hr).1 (hunsat r hr)
  refine ⟨by simp [hset], ⟨fun _ => ⟨set, hset, hunsat⟩, fun _ => ⟨_, hserve, rfl⟩⟩, ?_,
    fun a ha head => writeRange_isSome (inBounds_of_serveRange o hget ha) head⟩
  intro a ha hstatus
  rw [hserve] at ha
  cases ha
  exact absurd hstatus (by decide)

end

/-- A Range line with the unit of bytes is answered as it should be exactly if it is a set of ranges
none of which is satisfiable, or, on a non-empty body, one without empty elements all of which are,
with numbers that fit. -/
theorem range_exact_iff (hget : header.get Field.range = ascii "bytes=" ++ s) :
    RangeExact o header s ↔ ∃ set, readRangeSet s = some set ∧
      ((∀ r ∈ set, ¬ r.satisfiable o.obj.body.length) ∨
        o.obj.body ≠ [] ∧ Answerable o.obj.body.length (rangeElements s) set) := by
  constructor
  · intro h
    cases hset : readRangeSet s with
    | none =>
      have := h.ignored hset
      rw [serveRange_bytes o hget] at this
      cases this
    | some set =>
      refine ⟨set, rfl, ?_⟩
      obtain ⟨⟨r, hr⟩, -⟩ := readRangeSet_inv hset
      rcases serveRange_of_set o hget hset with ⟨hserve, hall⟩ | ⟨hserve, -⟩
      · refine .inr ⟨fun hempty => ?_, hall⟩
        -- the one range of an empty body is none
        obtain ⟨w, -, bytes, hforall, -⟩ := h.described _ hserve rfl
        obtain ⟨b, -, hb⟩ := (exists_of_mem_forall₂ hforall).2 _ (mem_map_of_mem hr)
        have hinside := hb.inside
        have hsat := (hall.2 r hr).1
        rw [hempty] at hinside hsat
        exact absurd (resolve_empty hsat) (by simpa using hinside.1.trans hinside.2.1)
      · obtain ⟨set', hset', hunsat⟩ := h.unsatisfiable.1 ⟨_, hserve, rfl⟩
        rw [hset, Option.some.injEq] at hset'
        exact .inl (hset' ▸ hunsat)
  · rintro ⟨set, hset, hunsat | ⟨hne, hall⟩⟩
    · exact rangeExact_of_unsatisfiable o hget hset hunsat
    · exact rangeExact_of_answerable o hget hset hne hall

end

def minuteBody (body : Bytes) (h : (body.length : Int) ≤ maxDuration) : FullObject where
  obj := buildObject plainFiller ⟨0, 0⟩ plainRequest ⟨200, .map minuteHeader, body, 0⟩ minuteHeader
    none 0 0
  size := rfl
  fits := h

def rangeRequest (set : Bytes) : Map := ⟨[⟨Field.range, ascii "bytes=" ++ set⟩]⟩

def emptyBody : FullObject := minuteBody [] (by decide)

def fourBytes : FullObject := minuteBody (ascii "body") (by decide)

/-- The end of nothing is answered with a range that ends before it starts; a set with one range out
of two is refused, and so is what is no set. -/
theorem ranges_misanswered :
    (serveRange (rangeRequest (ascii "-5")) emptyBody.obj = some ⟨206, [(0, -1)]⟩ ∧
      (writeRange false emptyBody.obj ⟨206, [(0, -1)]⟩).map (·.contentRange) =
        some (some (ascii "bytes 0--1/0")) ∧
      ¬ RangeExact emptyBody (rangeRequest (ascii "-5")) (ascii "-5")) ∧
    (serveRange (rangeRequest (ascii "0-1,9-")) fourBytes.obj = some ⟨416, []⟩ ∧
      ¬ RangeExact fourBytes (rangeRequest (ascii "0-1,9-")) (ascii "0-1,9-")) ∧
    (serveRange (rangeRequest (ascii "x")) fourBytes.obj = some ⟨416, []⟩ ∧
      ¬ RangeExact fourBytes (rangeRequest (ascii "x")) (ascii "x")) := by
  have hempty : serveRange (rangeRequest (ascii "-5")) emptyBody.obj = some ⟨206, [(0, -1)]⟩ := by
    decide
  have hmixed : serveRange (rangeRequest (ascii "0-1,9-")) fourBytes.obj = some ⟨416, []⟩ := by
    decide
  have hwrong : serveRange (rangeRequest (ascii "x")) fourBytes.obj = some ⟨416, []⟩ := by
    decide
  refine ⟨⟨hempty, by decide, fun h => ?_⟩, ⟨hmixed, fun h => ?_⟩, hwrong, fun h => ?_⟩
  · obtain ⟨w, -, bytes, hforall, -⟩ := h.described _ hempty rfl
    obtain ⟨b, -, hb⟩ := (exists_of_mem_forall₂ hforall).2 (0, -1) (.head _)
    exact absurd hb.inside.2.1 (by decide)
  · obtain ⟨set, hset, hunsat⟩ := h.unsatisfiable.1 ⟨_, hmixed, rfl⟩
    have hread : readRangeSet (ascii "0-1,9-") =
        some [.int 0 (some 1) (by simp), .int 9 none (by simp)] := by decide
    cases hread.symm.trans hset
    exact hunsat _ (.head _) (by decide)
  · have := h.ignored (by decide)
    cases this

/-- Two ranges, one of them an end, in a body of four bytes. -/
theorem two_ranges_exact :
    RangeExact fourBytes (rangeRequest (ascii "1-2, -9")) (ascii "1-2, -9") := by
  refine (range_exact_iff fourBytes (by decide)).2
    ⟨[.int 1 (some 2) (by simp), .suffix 9], by decide, .inr ⟨by decide, ?_, ?_⟩⟩
  · decide
  · rw [forall_mem_cons, forall_mem_singleton]
    exact ⟨⟨by decide, by simp [RangeSpec.Fits, maxDuration]⟩, by decide,
      by simp [RangeSpec.Fits, maxDuration]⟩

end Bouine.Cache
