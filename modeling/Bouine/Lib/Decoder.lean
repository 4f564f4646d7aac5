import Bouine.Lib.Binary

/-! # Decoders

A decoder takes what it needs from the front of a byte string, or fails. `Reads rd bs a` says that
it takes exactly `bs` and makes `a` of it, whatever follows; decoders in sequence read one after the
other. The primitives are raw bytes, and numbers of seven bits a byte, unsigned and signed
(`binary.Uvarint` and `binary.Varint` of Go).
-/

namespace Bouine.Lib

open List

abbrev Decoder (ε : Type) := StateT Bytes (Except ε)

namespace Decoder

variable {ε α β : Type}

/-- The decoder takes exactly `bs` and gives `a`. -/
def Reads (rd : Decoder ε α) (bs : Bytes) (a : α) : Prop := ∀ r, rd.run (bs ++ r) = .ok (a, r)

theorem reads_pure (a : α) : Reads (pure a : Decoder ε α) [] a := fun _ => rfl

variable {rd : Decoder ε α} {f : α → Decoder ε β} {bs : Bytes} {a : α}

theorem Reads.bind {bs bs' : Bytes} {b : β} (h : Reads rd bs a) (h' : Reads (f a) bs' b) :
    Reads (rd >>= f) (bs ++ bs') b := by
  intro r
  rw [append_assoc, StateT.run_bind, h]
  exact h' r

theorem Reads.bind_pure {b : β} (h : Reads rd bs a) (h' : f a = pure b) :
    Reads (rd >>= f) bs b := by
  have hlast : Reads (f a) [] b := by
    rw [h']
    exact reads_pure b
  have := h.bind hlast
  rwa [append_nil] at this

theorem Reads.field {fields : List Bytes} {b : β} (h : Reads rd bs a)
    (h' : Reads (f a) fields.flatten b) : Reads (rd >>= f) (bs :: fields).flatten b := by
  exact h.bind h'

theorem Reads.map (h : Reads rd bs a) (f : α → β) : Reads (f <$> rd) bs (f a) := by
  intro r
  rw [StateT.run_map, h]
  rfl

/-! ## Bytes -/

def take (e : ε) (n : Nat) : Decoder ε Bytes := fun s =>
  if s.length < n then .error e else .ok (s.take n, s.drop n)

theorem reads_take (e : ε) {n : Nat} (h : bs.length = n) : Reads (take e n) bs bs := by
  intro r
  subst h
  show (if _ then _ else _) = _
  rw [if_neg (by simp), take_left, drop_left]

def fixed (e : ε) (n : Nat) : Decoder ε (FixedBytes n) := copyFixed n <$> take e n

theorem reads_fixed (e : ε) {n : Nat} (k : FixedBytes n) : Reads (fixed e n) k.val k := by
  have := (reads_take e k.property).map (copyFixed n)
  rwa [copyFixed_val] at this

def byte (e : ε) : Decoder ε UInt8 := fun s =>
  match s with
  | [] => .error e
  | b :: s => .ok (b, s)

theorem reads_byte (e : ε) (b : UInt8) : Reads (byte e) [b] b := fun _ => rfl

/-! ## Repetition -/

def times (rd : Decoder ε α) : Nat → Decoder ε (List α)
  | 0 => pure []
  | n + 1 => do
    let a ← rd
    let as ← times rd n
    pure (a :: as)

theorem reads_times {encode : α → Bytes} {as : List α} (h : ∀ a ∈ as, Reads rd (encode a) a) :
    Reads (times rd as.length) (as.flatMap encode) as := by
  induction as with
  | nil => exact reads_pure []
  | cons a as ih =>
    have hrest := ih fun b hb => h b (.tail _ hb)
    exact (h a (.head _)).bind (hrest.bind_pure rfl)

end Decoder

/-! ## Numbers of seven bits a byte -/

/-- At most `k` more bytes, and a last one. -/
def putUvarintFrom : Nat → Nat → Bytes
  | 0, n => [UInt8.ofNat n]
  | k + 1, n =>
    if n < 128 then [UInt8.ofNat n] else UInt8.ofNat (n % 128 + 128) :: putUvarintFrom k (n / 128)

/-- `binary.AppendUvarint`. -/
def putUvarint (n : UInt64) : Bytes := putUvarintFrom 9 n.toNat

/-- The loop of `binary.Uvarint`, at the byte with number `i`. -/
def getUvarintFrom : Nat → Bytes → Option (Nat × Bytes)
  | _, [] => none
  | i, b :: s =>
    if i = 10 then none
    else if b.toNat < 128 then
      if i = 9 ∧ 1 < b.toNat then none else some (b.toNat, s)
    else (getUvarintFrom (i + 1) s).map fun (x, r) => (b.toNat % 128 + 128 * x, r)

theorem getUvarintFrom_put {i k n : Nat} (hik : i + k = 9) (hn : n < 2 ^ (64 - 7 * i)) (r : Bytes) :
    getUvarintFrom i (putUvarintFrom k n ++ r) = some (n, r) := by
  induction k generalizing i n with
  | zero =>
    obtain rfl : i = 9 := by omega
    have hbyte : (UInt8.ofNat n).toNat = n := by
      rw [UInt8.toNat_ofNat']
      omega
    rw [putUvarintFrom, singleton_append, getUvarintFrom, hbyte, if_neg (by omega),
      if_pos (by omega), if_neg (by omega)]
  | succ k ih =>
    rw [putUvarintFrom]
    split_ifs with hsmall
    · have hbyte : (UInt8.ofNat n).toNat = n := by
        rw [UInt8.toNat_ofNat']
        omega
      rw [singleton_append, getUvarintFrom, hbyte, if_neg (by omega), if_pos hsmall,
        if_neg (by omega)]
    · have hbyte : (UInt8.ofNat (n % 128 + 128)).toNat = n % 128 + 128 := by
        rw [UInt8.toNat_ofNat']
        omega
      have hdiv : n / 128 < 2 ^ (64 - 7 * (i + 1)) := by
        rw [Nat.div_lt_iff_lt_mul (by omega), ← Nat.pow_add 2 _ 7]
        have hexp : 64 - 7 * (i + 1) + 7 = 64 - 7 * i := by omega
        rwa [hexp]
      rw [cons_append, getUvarintFrom, hbyte, if_neg (by omega),
        ih (by omega) hdiv]
      have hsum : (n % 128 + 128) % 128 + 128 * (n / 128) = n := by omega
      show some ((n % 128 + 128) % 128 + 128 * (n / 128), r) = _
      rw [hsum]

/-- What `binary.AppendVarint` writes: the sign in the lowest bit. -/
def zigzag (x : Int) : Nat := if x < 0 then (-2 * x - 1).toNat else (2 * x).toNat

def unzigzag (n : Nat) : Int := if n % 2 = 0 then n / 2 else -(n / 2) - 1

theorem unzigzag_zigzag (x : Int) : unzigzag (zigzag x) = x := by
  unfold unzigzag zigzag
  split_ifs <;> omega

def putVarint (x : Int64) : Bytes := putUvarint (UInt64.ofNat (zigzag x.toInt))

namespace Decoder

variable {ε : Type}

def uvarint (e : ε) : Decoder ε UInt64 := fun s =>
  match getUvarintFrom 0 s with
  | none => .error e
  | some (n, r) => .ok (UInt64.ofNat n, r)

theorem reads_uvarint (e : ε) (n : UInt64) : Reads (uvarint e) (putUvarint n) n := by
  intro r
  show uvarint e _ = _
  rw [uvarint, putUvarint, getUvarintFrom_put rfl n.toNat_lt]
  show Except.ok (UInt64.ofNat n.toNat, r) = _
  rw [UInt64.ofNat_toNat]

def varint (e : ε) : Decoder ε Int64 := (fun n => Int64.ofInt (unzigzag n.toNat)) <$> uvarint e

theorem zigzag_lt (x : Int64) : zigzag x.toInt < 2 ^ 64 := by
  have hlow := x.le_toInt
  have hhigh := x.toInt_lt
  unfold zigzag
  split_ifs <;> omega

theorem reads_varint (e : ε) (x : Int64) : Reads (varint e) (putVarint x) x := by
  have := (reads_uvarint e (UInt64.ofNat (zigzag x.toInt))).map
    fun n => Int64.ofInt (unzigzag n.toNat)
  rwa [UInt64.toNat_ofNat_of_lt' (zigzag_lt x), unzigzag_zigzag, Int64.ofInt_toInt] at this

/-! ## Texts and lists -/

/-- A length and as many bytes. A length that is no `int` is refused. -/
def text (e : ε) : Decoder ε Bytes := do
  let n ← uvarint e
  if 2 ^ 63 ≤ n.toNat then throw e else take e n.toNat

def putText (s : Bytes) : Bytes := putUvarint (UInt64.ofNat s.length) ++ s

theorem reads_text (e : ε) {s : Bytes} (h : s.length < 2 ^ 63) : Reads (text e) (putText s) s := by
  have hlen : (UInt64.ofNat s.length).toNat = s.length :=
    UInt64.toNat_ofNat_of_lt' (lt_trans h (by decide))
  refine (reads_uvarint e _).bind ?_
  rw [hlen, if_neg (not_le.2 h)]
  exact reads_take e rfl

theorem putUvarintFrom_ne_nil (k n : Nat) : putUvarintFrom k n ≠ [] := by
  cases k with
  | zero => exact cons_ne_nil _ _
  | succ k =>
    rw [putUvarintFrom]
    split_ifs <;> exact cons_ne_nil _ _

theorem putText_ne_nil (s : Bytes) : putText s ≠ [] :=
  append_ne_nil_of_left_ne_nil (putUvarintFrom_ne_nil _ _) _

def count (e : ε) : Decoder ε Nat := do
  let v ← uvarint e
  let s ← get
  if s.length < v.toNat then throw e else pure v.toNat

def counted {α : Type} (e : ε) (item : Decoder ε α) : Decoder ε (List α) := do
  let n ← count e
  times item n

/-- Items that take at least a byte each are never too many. -/
theorem reads_counted {α : Type} (e : ε) {item : Decoder ε α} {encode : α → Bytes} {as : List α}
    (hlen : as.length < 2 ^ 64) (hitem : ∀ a ∈ as, Reads item (encode a) a)
    (hne : ∀ a ∈ as, encode a ≠ []) :
    Reads (counted e item) (putUvarint (UInt64.ofNat as.length) ++ as.flatMap encode) as := by
  intro r
  have hnat : (UInt64.ofNat as.length).toNat = as.length := UInt64.toNat_ofNat_of_lt' hlen
  have hroom : ¬ (as.flatMap encode ++ r).length < as.length := by
    have := length_le_length_flatMap hne
    rw [length_append]
    omega
  have hcount : (count e).run (putUvarint (UInt64.ofNat as.length) ++ (as.flatMap encode ++ r)) =
      .ok (as.length, as.flatMap encode ++ r) := by
    rw [count, StateT.run_bind, reads_uvarint]
    show StateT.run (if (as.flatMap encode ++ r).length < (UInt64.ofNat as.length).toNat
      then throw e else pure (UInt64.ofNat as.length).toNat) (as.flatMap encode ++ r) = _
    rw [hnat, if_neg hroom]
    rfl
  rw [counted, StateT.run_bind, append_assoc, hcount]
  exact reads_times hitem r

end Decoder

end Bouine.Lib
