import Mathlib.Algebra.Ring.Int.Defs
import Mathlib.Algebra.Ring.Nat
import Mathlib.Data.List.Infix
import Mathlib.Data.List.Count
import Mathlib.Data.List.TakeWhile

/-! # Byte strings

Byte strings are lists of `UInt8`. Besides a few string operations this file holds the argument for
fields glued together with a separator that may also occur inside them: a glued string determines
its fields once it is known how often the separator occurs in each.
-/

namespace Bouine.Lib

open List

abbrev Bytes := List UInt8

instance (priority := 1100) lawfulBEq_bytes : LawfulBEq Bytes := inferInstance

/-- Before the instance of finite types, which tries all bytes. -/
instance (priority := 1100) {p : UInt8 → Prop} [DecidablePred p] (s : Bytes) :
    Decidable (∀ c ∈ s, p c) :=
  decidableBAll p s

def byte (c : Char) : UInt8 := c.toNat.toUInt8

def ascii (s : String) : Bytes := s.toList.map byte

/-- `strings.Cut` at a byte: what stands before and after its first occurrence (nothing if there is
none). -/
def cutAt (c : UInt8) (s : Bytes) : Bytes × Bytes :=
  (s.takeWhile (· != c), (s.dropWhile (· != c)).drop 1)

/-- The pieces between occurrences of a byte, as a loop that cuts while anything is left: a trailing
separator starts no piece. -/
def pieces (c : UInt8) : Bytes → List Bytes
  | [] => []
  | x :: s =>
    if x = c then [] :: pieces c s
    else
      match pieces c s with
      | [] => [[x]]
      | g :: gs => (x :: g) :: gs

/-- `strings.Split` at a byte: one piece more than there are separators. -/
def splitOn (c : UInt8) : Bytes → List Bytes
  | [] => [[]]
  | x :: s =>
    if x = c then [] :: splitOn c s
    else
      match splitOn c s with
      | [] => [[x]]
      | g :: gs => (x :: g) :: gs

def toLowerByte (c : UInt8) : UInt8 :=
  if byte 'A' ≤ c ∧ c ≤ byte 'Z' then c + (byte 'a' - byte 'A') else c

def toLower (s : Bytes) : Bytes := s.map toLowerByte

def equalFold (a b : Bytes) : Bool := toLower a == toLower b

def isOWS (c : UInt8) : Bool := c == byte ' ' || c == byte '\t'

def trimOWS (s : Bytes) : Bytes := (((s.dropWhile isOWS).reverse).dropWhile isOWS).reverse

def listMembers (s : Bytes) : List Bytes := ((splitOn (byte ',') s).map trimOWS).filter (· ≠ [])

def bytesLE (a b : Bytes) : Prop := ¬ b < a

instance : DecidableRel bytesLE := fun a b => inferInstanceAs (Decidable (¬ b < a))

theorem toNat_byte {c : Char} (hc : c.toNat < 0x80) : (byte c).toNat = c.toNat := by
  have hmod : (byte c).toNat = c.toNat % 256 := by simp [byte]
  omega

theorem byte_inj {c d : Char} (hc : c.toNat < 0x80) (hd : d.toNat < 0x80) (h : byte c = byte d) :
    c = d := by
  have hnat := congrArg UInt8.toNat h
  rw [toNat_byte hc, toNat_byte hd] at hnat
  exact Char.toNat_inj.1 hnat

theorem forall_byte {P : UInt8 → Prop} (h : ∀ i : Fin 256, P (UInt8.ofNat i)) (c : UInt8) : P c := by
  have := h ⟨c.toNat, c.toNat_lt⟩
  simpa using this

/-! ## Cutting -/

variable {c : UInt8} {a : Bytes}

theorem cutAt_append (ha : c ∉ a) (b : Bytes) : cutAt c (a ++ c :: b) = (a, b) := by
  induction a with
  | nil => simp [cutAt]
  | cons x a ih =>
    have hx : x ≠ c := fun h => ha (by simp [h])
    have ih' := ih fun h => ha (.tail _ h)
    simp only [cutAt, Prod.mk.injEq] at ih' ⊢
    simp [hx, ih']

theorem cutAt_append_of_notMem (ha : c ∉ a) (b : Bytes) :
    cutAt c (a ++ b) = (a ++ (cutAt c b).1, (cutAt c b).2) := by
  have hne : ∀ x ∈ a, (x != c) = true := fun x hx => by
    simpa using fun h : x = c => ha (h ▸ hx)
  simp only [cutAt]
  rw [takeWhile_append_of_pos hne, dropWhile_append_of_pos hne]

theorem notMem_cutAt_fst (c : UInt8) (s : Bytes) : c ∉ (cutAt c s).1 := by
  intro h
  have := mem_takeWhile_imp h
  simp at this

variable {c x : UInt8} {s : Bytes}

theorem mem_of_mem_cutAt_fst (h : x ∈ (cutAt c s).1) : x ∈ s :=
  (takeWhile_sublist _).subset h

theorem mem_of_mem_cutAt_snd (h : x ∈ (cutAt c s).2) : x ∈ s :=
  (dropWhile_sublist _).subset ((drop_sublist _ _).subset h)

theorem mem_cutAt (hx : x ≠ c) (s : Bytes) :
    x ∈ (cutAt c s).1 ∨ x ∈ (cutAt c s).2 ↔ x ∈ s := by
  refine ⟨fun h => h.elim mem_of_mem_cutAt_fst mem_of_mem_cutAt_snd, fun h => ?_⟩
  induction s with
  | nil => simp at h
  | cons y s ih =>
    by_cases hy : y = c
    · subst hy
      simpa [cutAt, hx] using h
    · have hcut : cutAt c (y :: s) = (y :: (cutAt c s).1, (cutAt c s).2) := by simp [cutAt, hy]
      rw [hcut]
      rcases mem_cons.1 h with rfl | h
      · simp
      · rcases ih h with h | h <;> simp [h]

theorem forall_mem_concat {α : Type*} {P : α → Prop} {l : List α} {a : α} :
    (∀ x ∈ l ++ [a], P x) ↔ (∀ x ∈ l, P x) ∧ P a := by
  simp [or_imp, forall_and]

theorem length_le_length_flatMap {α : Type*} {encode : α → Bytes} {as : List α}
    (h : ∀ a ∈ as, encode a ≠ []) : as.length ≤ (as.flatMap encode).length := by
  induction as with
  | nil => exact le_rfl
  | cons a as ih =>
    have ha := length_pos_iff.2 (h a (.head _))
    have hrest := ih fun x hx => h x (.tail _ hx)
    rw [flatMap_cons, length_cons, length_append]
    omega

/-! ## Pieces -/

@[simp] theorem pieces_cons_self (c : UInt8) (s : Bytes) :
    pieces c (c :: s) = [] :: pieces c s := by
  simp [pieces]

@[simp] theorem pieces_nil (c : UInt8) : pieces c [] = [] := rfl

theorem count_le_length_pieces (c : UInt8) (s : Bytes) :
    s.count c ≤ (pieces c s).length ∧ (pieces c s).length ≤ s.count c + 1 := by
  induction s with
  | nil => simp [pieces]
  | cons x s ih =>
    unfold pieces
    split_ifs with hx
    · simpa [hx] using ih
    · rw [count_cons_of_ne hx]
      cases hp : pieces c s <;> simp_all

theorem pieces_cut (hs : s ≠ []) :
    pieces c s = (cutAt c s).1 :: pieces c (cutAt c s).2 := by
  induction s with
  | nil => cases hs rfl
  | cons x s ih =>
    by_cases hx : x = c
    · subst hx
      simp [cutAt]
    · have hcut : cutAt c (x :: s) = (x :: (cutAt c s).1, (cutAt c s).2) := by simp [cutAt, hx]
      rw [hcut, pieces, if_neg hx]
      by_cases hs' : s = []
      · subst hs'
        simp [cutAt]
      · rw [ih hs']

theorem pieces_append (ha : c ∉ a) (b : Bytes) : pieces c (a ++ c :: b) = a :: pieces c b := by
  rw [pieces_cut (by simp), cutAt_append ha]

theorem pieces_of_notMem (ha : c ∉ a) (hne : a ≠ []) : pieces c a = [a] := by
  have hall : ∀ x ∈ a, (x != c) = true := by
    intro x hx
    simp only [bne_iff_ne, ne_eq]
    rintro rfl
    exact ha hx
  rw [pieces_cut hne, cutAt, takeWhile_eq_self_iff.2 hall, dropWhile_eq_nil_iff.2 hall]
  rfl

theorem splitOn_ne_nil (c : UInt8) (s : Bytes) : splitOn c s ≠ [] := by
  cases s with
  | nil => simp [splitOn]
  | cons x s =>
    rw [splitOn]
    split_ifs
    · simp
    · split <;> simp

theorem splitOn_cons_of_ne (hx : x ≠ c) (s : Bytes) :
    ∃ g gs, splitOn c s = g :: gs ∧ splitOn c (x :: s) = (x :: g) :: gs := by
  cases hs : splitOn c s with
  | nil => exact absurd hs (splitOn_ne_nil c s)
  | cons g gs =>
    refine ⟨g, gs, rfl, ?_⟩
    rw [splitOn, if_neg hx, hs]

theorem splitOn_append_sep (c : UInt8) (a b : Bytes) :
    splitOn c (a ++ c :: b) = splitOn c a ++ splitOn c b := by
  induction a with
  | nil =>
    show splitOn c (c :: b) = [] :: splitOn c b
    rw [splitOn, if_pos rfl]
  | cons x a ih =>
    by_cases hx : x = c
    · rw [cons_append, splitOn, if_pos hx, splitOn, if_pos hx, ih]
      rfl
    · obtain ⟨g, gs, ha, hxa⟩ := splitOn_cons_of_ne hx a
      rw [cons_append, splitOn, if_neg hx, ih, hxa, ha]
      rfl

variable {g : Bytes}

theorem splitOn_of_notMem (hg : c ∉ g) : splitOn c g = [g] := by
  induction g with
  | nil => rfl
  | cons x g ih =>
    rw [mem_cons, not_or] at hg
    rw [splitOn, if_neg (Ne.symm hg.1), ih hg.2]

/-- A string and its pieces, from the last piece on. -/
theorem splitOn_induction {P : Bytes → List Bytes → Prop} (hlast : ∀ g, c ∉ g → P g [g])
    (hpiece : ∀ g s gs, c ∉ g → P s gs → P (g ++ c :: s) (g :: gs)) (s : Bytes) :
    P s (splitOn c s) := by
  induction hn : s.length using Nat.strong_induction_on generalizing s with
  | _ n ih =>
    by_cases hmem : c ∈ s
    · obtain ⟨g, s, rfl, hg⟩ := eq_append_cons_of_mem hmem
      rw [splitOn_append_sep, splitOn_of_notMem hg]
      exact hpiece g s _ hg (ih s.length (by rw [← hn]; simp; omega) s rfl)
    · rw [splitOn_of_notMem hmem]
      exact hlast s hmem

theorem mem_of_mem_splitOn (hg : g ∈ splitOn c s) (hx : x ∈ g) : x ∈ s := by
  refine splitOn_induction (P := fun s gs => ∀ g ∈ gs, x ∈ g → x ∈ s) (by simp) ?_ s g hg hx
  intro g s gs _ ih
  rw [forall_mem_cons]
  exact ⟨mem_append_left _, fun g' hg' hx => mem_append_right _ (.tail _ (ih g' hg' hx))⟩

theorem notMem_of_mem_splitOn (hg : g ∈ splitOn c s) : c ∉ g :=
  splitOn_induction (P := fun _ gs => ∀ g ∈ gs, c ∉ g) (by simp)
    (fun _ _ _ hg ih => forall_mem_cons.2 ⟨hg, ih⟩) s g hg

theorem mem_splitOn_of_mem (c : UInt8) (hx : x ∈ s) : x = c ∨ ∃ g ∈ splitOn c s, x ∈ g := by
  refine splitOn_induction (P := fun s gs => x ∈ s → x = c ∨ ∃ g ∈ gs, x ∈ g)
    (fun g _ hx => .inr ⟨g, .head _, hx⟩) (fun g s gs _ ih hx => ?_) s hx
  rcases mem_append.1 hx with hx | hx
  · exact .inr ⟨g, .head _, hx⟩
  · rcases mem_cons.1 hx with rfl | hx
    · exact .inl rfl
    · exact (ih hx).imp_right fun ⟨g', hg', hx⟩ => ⟨g', .tail _ hg', hx⟩

/-- A loop that cuts while anything is left misses at most empty pieces. -/
theorem splitOn_eq_pieces (c : UInt8) (s : Bytes) :
    ∃ n, splitOn c s = pieces c s ++ List.replicate n [] := by
  refine splitOn_induction (P := fun s gs => ∃ n, gs = pieces c s ++ List.replicate n [])
    (fun g hg => ?_) (fun g s gs hg ⟨n, ih⟩ => ⟨n, by rw [pieces_append hg, ih, cons_append]⟩) s
  by_cases hne : g = []
  · exact ⟨1, by rw [hne]; rfl⟩
  · exact ⟨0, by rw [pieces_of_notMem hg hne]; rfl⟩

theorem notMem_of_mem_pieces (h : g ∈ pieces c s) : c ∉ g := by
  obtain ⟨n, hsplit⟩ := splitOn_eq_pieces c s
  exact notMem_of_mem_splitOn (hsplit ▸ mem_append_left _ h)

/-- Splitting commutes with a map of the bytes that keeps the separator apart. -/
theorem splitOn_map {f : UInt8 → UInt8} (hf : ∀ x, f x = c ↔ x = c) (s : Bytes) :
    splitOn c (s.map f) = (splitOn c s).map (List.map f) := by
  induction s with
  | nil => rfl
  | cons x s ih =>
    rw [map_cons, splitOn, splitOn, ih]
    by_cases hx : x = c
    · rw [if_pos ((hf x).2 hx), if_pos hx]
      rfl
    · rw [if_neg (fun h => hx ((hf x).1 h)), if_neg hx]
      cases splitOn c s <;> rfl

/-! ## Separated fields -/

/-- Glued pairs with equally many separators in their first fields have the same fields. -/
theorem append_sep_inj {a a' b b' : Bytes} (h : a ++ c :: b = a' ++ c :: b')
    (hc : a.count c = a'.count c) : a = a' ∧ b = b' := by
  induction a generalizing a' with
  | nil =>
    cases a' with
    | nil => exact ⟨rfl, by simpa using h⟩
    | cons x a' =>
      simp only [nil_append, cons_append, cons.injEq] at h
      simp [← h.1] at hc
  | cons x a ih =>
    cases a' with
    | nil =>
      simp only [nil_append, cons_append, cons.injEq] at h
      simp [h.1] at hc
    | cons y a' =>
      simp only [cons_append, cons.injEq] at h
      obtain ⟨rfl, h⟩ := h
      have hcount : a.count c = a'.count c := by
        simpa [count_cons] using hc
      obtain ⟨rfl, rfl⟩ := ih h hcount
      exact ⟨rfl, rfl⟩

theorem suffix_after_sep {s a b : Bytes} (hs : c ∉ s) : s <:+ a ++ c :: b ↔ s <:+ b := by
  constructor
  · intro h
    obtain ⟨t, ht⟩ := h
    rcases append_eq_append_iff.1 ht with ⟨u, -, hu⟩ | ⟨u, -, hb⟩
    · exact absurd (by simp [hu]) hs
    · cases u with
      | nil => exact absurd (by simp [← show c :: b = s from hb]) hs
      | cons x u => exact ⟨u, (cons.inj hb).2.symm⟩
  · intro h
    exact h.trans ((suffix_cons c b).trans (suffix_append a (c :: b)))

end Bouine.Lib
