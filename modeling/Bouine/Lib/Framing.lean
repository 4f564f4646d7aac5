import Bouine.Lib.Bytes

/-! # Files of self-delimiting records

A file is a run of encoded records, possibly followed by the torn beginning of one more. The reader
`next` takes a record off the front; `scan` calls it until it stops and reports every record with
its offset. `Frames` says what the reader owes the encoder, and the rules after it what a scan then
finds: after whole records, after a torn one, and after the file was cut at an arbitrary byte.
-/

namespace Bouine.Lib.Framing

open List Nat

/-- What a reader finds at the front of the bytes that are left. -/
inductive Next (α : Type*) where
  /-- The end of the file, or a record that is not all there. -/
  | stop
  /-- A record that is all there and does not check out. -/
  | corrupt
  | record (a : α) (rest : Bytes)

variable {α : Type*}

/-- The records from offset `pos` on, and whether the scan ended without a corrupt one. -/
def scanFrom (next : Bytes → Next α) : Nat → Nat → Bytes → List (Nat × α) × Bool
  | 0, _, _ => ([], true)
  | fuel + 1, pos, s =>
    match next s with
    | .stop => ([], true)
    | .corrupt => ([], false)
    | .record a rest =>
      let r := scanFrom next fuel (pos + (s.length - rest.length)) rest
      ((pos, a) :: r.1, r.2)

/-- Every record takes a byte at least, so the length of the file bounds their number. -/
def scan (next : Bytes → Next α) (s : Bytes) : List (Nat × α) × Bool :=
  scanFrom next (s.length + 1) 0 s

/-- The reader `next` reads back what `encode` writes for valid records, and takes the beginning of
one for the end of the file. -/
structure Frames (next : Bytes → Next α) (encode : α → Bytes) (valid : α → Prop) : Prop where
  encode_ne_nil : ∀ a, encode a ≠ []
  next_nil : next [] = .stop
  next_encode : ∀ a rest, valid a → next (encode a ++ rest) = .record a rest
  next_torn : ∀ a t, valid a → t <+: encode a → t ≠ encode a → next t = .stop

section

variable (encode : α → Bytes) (valid : α → Prop)

def encodeAll (as : List α) : Bytes := as.flatMap encode

def place : Nat → List α → List (Nat × α)
  | _, [] => []
  | pos, a :: as => (pos, a) :: place (pos + (encode a).length) as

def endOf (r : Nat × α) : Nat := r.1 + (encode r.2).length

def Torn (t : Bytes) : Prop := t = [] ∨ ∃ a, valid a ∧ t <+: encode a ∧ t ≠ encode a

end

variable {next : Bytes → Next α} {encode : α → Bytes} {valid : α → Prop}

@[simp] theorem encodeAll_nil : encodeAll encode [] = [] := rfl

@[simp] theorem encodeAll_cons (a : α) (as : List α) :
    encodeAll encode (a :: as) = encode a ++ encodeAll encode as := rfl

@[simp] theorem encodeAll_append (as bs : List α) :
    encodeAll encode (as ++ bs) = encodeAll encode as ++ encodeAll encode bs := by
  simp [encodeAll]

theorem place_append (pos : Nat) (as bs : List α) :
    place encode pos (as ++ bs) =
      place encode pos as ++ place encode (pos + (encodeAll encode as).length) bs := by
  induction as generalizing pos with
  | nil => rfl
  | cons a as ih => simp [place, ih, Nat.add_assoc]

@[simp] theorem map_snd_place (pos : Nat) (as : List α) :
    (place encode pos as).map Prod.snd = as := by
  induction as generalizing pos with
  | nil => rfl
  | cons a as ih => simp [place, ih]

variable {as : List α} {r : Nat × α} {fuel pos : Nat} {s : Bytes}

theorem le_of_mem_place (h : r ∈ place encode pos as) : pos ≤ r.1 := by
  induction as generalizing pos with
  | nil => cases h
  | cons a as ih =>
    rcases mem_cons.1 h with rfl | h
    · exact le_rfl
    · exact le_trans (le_add_right _ _) (ih h)

theorem lt_of_mem_place (hpos : ∀ a, encode a ≠ []) (h : r ∈ place encode pos as) :
    r.1 < pos + (encodeAll encode as).length := by
  induction as generalizing pos with
  | nil => cases h
  | cons a as ih =>
    have hlen := length_pos_of_ne_nil (hpos a)
    rw [encodeAll_cons, length_append]
    rcases mem_cons.1 h with rfl | h
    · omega
    · have hlt := ih h
      omega

theorem exists_of_mem_place_filter {keep : Nat × α → Bool} {pos pos' : Nat} (hle : pos' ≤ pos)
    (h : r ∈ place encode pos' (((place encode pos as).filter keep).map Prod.snd)) :
    ∃ off, r.1 ≤ off ∧ (off, r.2) ∈ place encode pos as ∧ keep (off, r.2) = true := by
  induction as generalizing pos pos' with
  | nil => cases h
  | cons a as ih =>
    cases hkeep : keep (pos, a) with
    | true =>
      rw [place, filter_cons_of_pos hkeep] at h
      rcases mem_cons.1 h with rfl | h
      · exact ⟨pos, hle, (.head _), hkeep⟩
      · obtain ⟨off, hoff, hmem, hk⟩ := ih (Nat.add_le_add_right hle _) h
        exact ⟨off, hoff, .tail _ hmem, hk⟩
    | false =>
      rw [place, filter_cons_of_neg (by simp [hkeep])] at h
      obtain ⟨off, hoff, hmem, hk⟩ := ih (le_trans hle (le_add_right _ _)) h
      exact ⟨off, hoff, .tail _ hmem, hk⟩

theorem exists_of_mem_place (h : r ∈ place encode pos as) :
    ∃ p q, encodeAll encode as = p ++ (encode r.2 ++ q) ∧ pos + p.length = r.1 := by
  induction as generalizing pos with
  | nil => cases h
  | cons a as ih =>
    rcases mem_cons.1 h with rfl | h
    · exact ⟨[], encodeAll encode as, rfl, rfl⟩
    · obtain ⟨p, q, heq, hlen⟩ := ih h
      refine ⟨encode a ++ p, q, ?_, ?_⟩
      · rw [encodeAll_cons, heq, append_assoc]
      · rw [length_append]
        omega

theorem Torn.take {t : Bytes} (h : Torn encode valid t) (m : Nat) :
    Torn encode valid (t.take m) := by
  rcases h with rfl | ⟨a, ha, hp, hne⟩
  · exact .inl (take_nil)
  · refine .inr ⟨a, ha, ( take_prefix m t).trans hp, fun heq => hne ?_⟩
    exact hp.eq_of_length_le (heq ▸ ( take_prefix m t).length_le)

namespace Frames

variable (F : Frames next encode valid)
include F

variable {t : Bytes}

theorem next_of_torn (h : Torn encode valid t) : next t = .stop := by
  rcases h with rfl | ⟨a, ha, hp, hne⟩
  · exact F.next_nil
  · exact F.next_torn a t ha hp hne

/-- A record takes one unit of fuel. -/
theorem scanFrom_records {as : List α} (has : ∀ a ∈ as, valid a) (s : Bytes) (fuel pos : Nat) :
    let rest := scanFrom next fuel (pos + (encodeAll encode as).length) s
    scanFrom next (as.length + fuel) pos (encodeAll encode as ++ s) =
      (place encode pos as ++ rest.1, rest.2) := by
  induction as generalizing pos with
  | nil => rw [length_nil, Nat.zero_add]; rfl
  | cons a as ih =>
    have hrest := ih (fun b hb => has b (.tail _ hb)) (pos + (encode a).length)
    have hlen : (encode a ++ (encodeAll encode as ++ s)).length -
        (encodeAll encode as ++ s).length = (encode a).length := by
      rw [length_append, Nat.add_sub_cancel]
    rw [length_cons, Nat.add_right_comm, encodeAll_cons, append_assoc, scanFrom,
      F.next_encode a _ (has a (.head _))]
    simp only [hlen, hrest]
    rw [length_append, ← Nat.add_assoc]
    rfl

theorem scanFrom_encodeAll {as : List α} (has : ∀ a ∈ as, valid a)
    (ht : Torn encode valid t) {fuel : Nat} (hfuel : (encodeAll encode as).length < fuel)
    (pos : Nat) :
    scanFrom next fuel pos (encodeAll encode as ++ t) = (place encode pos as, true) := by
  have hle : as.length ≤ (encodeAll encode as).length :=
    length_le_length_flatMap fun a _ => F.encode_ne_nil a
  obtain ⟨k, rfl⟩ := Nat.exists_eq_add_of_lt (hle.trans_lt hfuel)
  rw [Nat.add_assoc, F.scanFrom_records has, scanFrom, F.next_of_torn ht, append_nil]

/-- A scan finds every whole record, and a torn one ends it. -/
theorem scan_encodeAll {as : List α} (has : ∀ a ∈ as, valid a)
    (ht : Torn encode valid t) :
    scan next (encodeAll encode as ++ t) = (place encode 0 as, true) :=
  F.scanFrom_encodeAll has ht (by rw [length_append]; omega) 0

end Frames

/-! ## Whatever follows the records -/

def Shortens (next : Bytes → Next α) : Prop :=
  ∀ s a rest, next s = .record a rest → rest.length < s.length

/-- More fuel than bytes makes no difference. -/
theorem Shortens.scanFrom_eq (h : Shortens next) {fuel fuel' : Nat} (hfuel : s.length < fuel)
    (hfuel' : s.length < fuel') (pos : Nat) :
    scanFrom next fuel pos s = scanFrom next fuel' pos s := by
  induction fuel generalizing fuel' pos s with
  | zero => omega
  | succ fuel ih =>
    obtain ⟨fuel', rfl⟩ := exists_eq_succ_of_ne_zero (ne_of_gt (zero_lt_of_lt hfuel'))
    rw [scanFrom, scanFrom]
    cases hnext : next s with
    | stop => rfl
    | corrupt => rfl
    | record a rest =>
      have hlen := h s a rest hnext
      have hrest (pos' : Nat) : scanFrom next fuel pos' rest = scanFrom next fuel' pos' rest :=
        ih (by omega) (by omega) pos'
      simp [hrest]

variable {p : Nat × α}

section

variable (hp : p ∈ (scanFrom next fuel pos s).1)
include hp

theorem scanFrom_cases :
    ∃ fuel' a rest, fuel = fuel' + 1 ∧ next s = .record a rest ∧
      (p = (pos, a) ∨ p ∈ (scanFrom next fuel' (pos + (s.length - rest.length)) rest).1) := by
  cases fuel with
  | zero => cases hp
  | succ fuel =>
    rw [scanFrom] at hp
    cases hnext : next s with
    | stop => simp [hnext] at hp
    | corrupt => simp [hnext] at hp
    | record a rest =>
      simp only [hnext] at hp
      exact ⟨fuel, a, rest, rfl, rfl, mem_cons.1 hp⟩

theorem le_of_mem_scanFrom : pos ≤ p.1 := by
  induction fuel generalizing pos s with
  | zero => cases hp
  | succ fuel ih =>
    obtain ⟨_, a, rest, ⟨⟩, -, rfl | hp⟩ := scanFrom_cases hp
    · exact le_rfl
    · exact le_trans (le_add_right _ _) (ih hp)

theorem exists_next_of_mem_scanFrom :
    ∃ s' rest, next s' = .record p.2 rest := by
  induction fuel generalizing pos s with
  | zero => cases hp
  | succ fuel ih =>
    obtain ⟨_, a, rest, ⟨⟩, hnext, rfl | hp⟩ := scanFrom_cases hp
    · exact ⟨s, rest, hnext⟩
    · exact ih hp

/-- A scan reports the record at its first byte; the others come behind. -/
theorem mem_scanFrom :
    ∃ a rest, next s = .record a rest ∧ (p = (pos, a) ∨ pos + (s.length - rest.length) ≤ p.1) := by
  obtain ⟨_, a, rest, -, hnext, hp⟩ := scanFrom_cases hp
  exact ⟨a, rest, hnext, hp.imp_right le_of_mem_scanFrom⟩

end

/-- A scan reports no place twice, and what `next` reads there. -/
theorem Shortens.nodup_scanFrom (h : Shortens next) :
    ((scanFrom next fuel pos s).1.map Prod.fst).Nodup := by
  induction fuel generalizing pos s with
  | zero => exact nodup_nil
  | succ fuel ih =>
    rw [scanFrom]
    cases hnext : next s with
    | stop => exact nodup_nil
    | corrupt => exact nodup_nil
    | record a rest =>
      have hlen := h s a rest hnext
      refine nodup_cons.2 ⟨fun hmem => ?_, ih⟩
      obtain ⟨p, hp, heq⟩ := mem_map.1 hmem
      have hle := le_of_mem_scanFrom hp
      omega

theorem next_of_mem_scanFrom (hsuffix : ∀ s a rest, next s = .record a rest → rest <:+ s)
    (hp : p ∈ (scanFrom next fuel pos s).1) :
    pos ≤ p.1 ∧ ∃ rest, next (s.drop (p.1 - pos)) = .record p.2 rest := by
  refine ⟨le_of_mem_scanFrom hp, ?_⟩
  induction fuel generalizing pos s with
  | zero => cases hp
  | succ fuel ih =>
    obtain ⟨_, a, rest, ⟨⟩, hnext, rfl | hp⟩ := scanFrom_cases hp
    · exact ⟨rest, by simpa using hnext⟩
    · have hle := le_of_mem_scanFrom hp
      have hat := ih hp
      obtain ⟨front, rfl⟩ := hsuffix s a rest hnext
      rw [length_append, Nat.add_sub_cancel] at hle hat
      rw [show p.1 - pos = front.length + (p.1 - (pos + front.length)) by omega,
        drop_length_add_append]
      exact hat

theorem Frames.scanFrom_append (F : Frames next encode valid) (h : Shortens next)
    (has : ∀ a ∈ as, valid a) (s : Bytes) {fuel : Nat}
    (hfuel : (encodeAll encode as ++ s).length < fuel) (pos : Nat) :
    scanFrom next fuel pos (encodeAll encode as ++ s) =
      (place encode pos as ++
          (scanFrom next (s.length + 1) (pos + (encodeAll encode as).length) s).1,
        (scanFrom next (s.length + 1) (pos + (encodeAll encode as).length) s).2) := by
  have hle : as.length ≤ (encodeAll encode as).length :=
    length_le_length_flatMap fun a _ => F.encode_ne_nil a
  rw [length_append] at hfuel
  obtain ⟨k, rfl⟩ := Nat.exists_eq_add_of_le (hle.trans (le_of_lt (lt_of_le_of_lt (le_add_right _ _) hfuel)))
  rw [F.scanFrom_records has, h.scanFrom_eq (by omega) (lt_succ_self _)]

/-- A file cut at any byte is a run of its first records and a torn one; those that end before the
cut stay. -/
theorem exists_cut {t : Bytes} (has : ∀ a ∈ as, valid a) (ht : Torn encode valid t) (m pos : Nat) :
    ∃ k t', (encodeAll encode as ++ t).take m = encodeAll encode (as.take k) ++ t' ∧
      Torn encode valid t' ∧
      (place encode pos as).filter
          (fun r => endOf encode r ≤ pos + ((encodeAll encode as ++ t).take m).length) =
        place encode pos (as.take k) := by
  induction as generalizing m pos with
  | nil => exact ⟨0, t.take m, rfl, ht.take m, rfl⟩
  | cons a as ih =>
    by_cases hm : (encode a).length ≤ m
    · obtain ⟨k, t', htake, ht', hplace⟩ := ih (fun b hb => has b (by simp [hb]))
        (m - (encode a).length) (pos + (encode a).length)
      have hcut : (encodeAll encode (a :: as) ++ t).take m =
          encode a ++ (encodeAll encode as ++ t).take (m - (encode a).length) := by
        rw [encodeAll_cons, append_assoc, take_append, take_of_length_le hm]
      refine ⟨k + 1, t', ?_, ht', ?_⟩
      · rw [hcut, htake]
        simp
      · rw [hcut, length_append, ← Nat.add_assoc]
        have hhead : endOf encode (pos, a) ≤ pos + (encode a).length +
            ((encodeAll encode as ++ t).take (m - (encode a).length)).length :=
          le_add_right _ _
        rw [place, filter_cons_of_pos (by simpa using hhead), hplace]
        rfl
    · have hcut : (encodeAll encode (a :: as) ++ t).take m = (encode a).take m := by
        rw [encodeAll_cons, append_assoc, take_append_of_le_length (by omega)]
      refine ⟨0, (encode a).take m, ?_, .inr ⟨a, has a (by simp), ?_, ?_⟩, ?_⟩
      · rw [hcut, take_zero, encodeAll_nil, nil_append]
      · exact take_prefix m _
      · intro heq
        have := congrArg length heq
        simp only [length_take] at this
        omega
      · rw [take_zero, place, filter_eq_nil_iff]
        intro r hr
        have hend : pos + (encode a).length ≤ endOf encode r := by
          rcases mem_cons.1 hr with rfl | hr
          · exact le_rfl
          · exact le_trans (le_of_mem_place hr) (le_add_right _ _)
        simp only [length_take, decide_eq_true_eq]
        omega

end Bouine.Lib.Framing
