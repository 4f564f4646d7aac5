import Mathlib.Data.List.DropRight
import Bouine.Lib.Bytes

/-! # Cache-Control directives

The tokenizer of `pkg/header/cachedirectives.go` over strings; that over byte slices is in
`Header.DirectiveBytes`.
-/

namespace Bouine.Header

open Lib List

/-- Durations are nanoseconds; the zero value stands for an absent directive. -/
structure Directives where
  /-- the argument of `no-cache="…"` -/
  noCacheFields : Bytes := []
  maxAge : Int := 0
  staleIfError : Int := 0
  staleWhileRevalid : Int := 0
  maxStale : Int := 0
  minFresh : Int := 0
  sMaxAge : Int := 0
  maxAgeSet : Bool := false
  sMaxAgeSet : Bool := false
  minFreshSet : Bool := false
  maxStaleSet : Bool := false
  staleWhileRevalidSet : Bool := false
  staleIfErrorSet : Bool := false
  mustRevalidate : Bool := false
  proxyRevalidate : Bool := false
  immutable : Bool := false
  noTransform : Bool := false
  onlyIfCached : Bool := false
  mustUnderstand : Bool := false
  noStore : Bool := false
  isPublic : Bool := false
  isPrivate : Bool := false
  noCache : Bool := false
deriving DecidableEq

/-! ## Tokens -/

def isCCDelimiter (c : UInt8) : Bool := c == byte ' ' || c == byte ',' || c == byte '\t'

def endsCCKey (c : UInt8) : Bool := c == byte '=' || isCCDelimiter c

/-- The value that starts here, and what follows. Without a closing quote it ends with the string.
-/
def scanCCValue (s : Bytes) : Bytes × Bytes :=
  if s.head? = some (byte '"') then
    let s := s.drop 1
    (s.takeWhile (· != byte '"'), (s.dropWhile (· != byte '"')).drop 1)
  else (s.takeWhile (!isCCDelimiter ·), s.dropWhile (!isCCDelimiter ·))

def scanCCToken (s : Bytes) : (Bytes × Bytes) × Bytes :=
  let key := s.takeWhile (!endsCCKey ·)
  let rest := s.dropWhile (!endsCCKey ·)
  if rest.head? = some (byte '=') then
    let (val, next) := scanCCValue (rest.drop 1)
    ((key, val), next)
  else ((key, []), rest)

/-- The tokens of a value; `n` bounds their number. -/
def tokensUpTo : Nat → Bytes → List (Bytes × Bytes)
  | 0, _ => []
  | n + 1, s =>
    let s := s.dropWhile isCCDelimiter
    if s = [] then []
    else
      let (token, rest) := scanCCToken s
      token :: tokensUpTo n rest

def tokens (s : Bytes) : List (Bytes × Bytes) := tokensUpTo s.length s

/-! ## Numbers -/

/-- Arithmetic of `int64`. -/
def wrap64 (n : Int) : Int := Int.bmod n (2 ^ 64)

def isDigit (c : UInt8) : Bool := byte '0' ≤ c && c ≤ byte '9'

/-- `ParseIntNoAlloc`: the leading digits, of which there must be one. -/
def parseIntNoAlloc (s : Bytes) : Option Int :=
  let digits := s.takeWhile isDigit
  if digits = [] then none
  else some (digits.foldl (fun n c => wrap64 (n * 10 + (c.toNat - 48))) 0)

def second : Int := 1000000000

/-- `parseDurStr`: of several values the largest counts. -/
def parseDurStr (dur : Int) (isSet : Bool) (val : Bytes) : Int × Bool :=
  match parseIntNoAlloc val with
  | none => (dur, isSet)
  | some n =>
    let d := wrap64 (n * second)
    if !isSet || dur < d then (d, true) else (dur, isSet)

/-! ## Directives -/

/-- The directives without an argument, as in the `switch` of `applyBoolDirective`. -/
def boolDirectives : List (Bytes × (Directives → Directives)) :=
  [(ascii "no-store", fun d => { d with noStore := true }),
    (ascii "no-cache", fun d => { d with noCache := true }),
    (ascii "private", fun d => { d with isPrivate := true }),
    (ascii "public", fun d => { d with isPublic := true }),
    (ascii "must-revalidate", fun d => { d with mustRevalidate := true }),
    (ascii "proxy-revalidate", fun d => { d with proxyRevalidate := true }),
    (ascii "immutable", fun d => { d with immutable := true }),
    (ascii "no-transform", fun d => { d with noTransform := true }),
    (ascii "only-if-cached", fun d => { d with onlyIfCached := true }),
    (ascii "must-understand", fun d => { d with mustUnderstand := true })]

def applyBoolDirective (d : Directives) (key : Bytes) : Option Directives :=
  (boolDirectives.find? fun e => equalFold key e.1).map fun e => e.2 d

/-- A directive that takes seconds: its field, and what it is worth without an argument. -/
structure DurDirective where
  name : Bytes
  get : Directives → Int × Bool
  put : Int × Bool → Directives → Directives
  bare : Option Int

/-- In the order of the `switch` of `applyDurDirective`. -/
def durDirectives : List DurDirective :=
  [⟨ascii "max-age", fun d => (d.maxAge, d.maxAgeSet),
      fun v d => { d with maxAge := v.1, maxAgeSet := v.2 }, none⟩,
    ⟨ascii "s-maxage", fun d => (d.sMaxAge, d.sMaxAgeSet),
      fun v d => { d with sMaxAge := v.1, sMaxAgeSet := v.2 }, none⟩,
    ⟨ascii "min-fresh", fun d => (d.minFresh, d.minFreshSet),
      fun v d => { d with minFresh := v.1, minFreshSet := v.2 }, none⟩,
    ⟨ascii "max-stale", fun d => (d.maxStale, d.maxStaleSet),
      fun v d => { d with maxStale := v.1, maxStaleSet := v.2 }, some (2 ^ 63 - 1)⟩,
    ⟨ascii "stale-while-revalidate", fun d => (d.staleWhileRevalid, d.staleWhileRevalidSet),
      fun v d => { d with staleWhileRevalid := v.1, staleWhileRevalidSet := v.2 }, none⟩,
    ⟨ascii "stale-if-error", fun d => (d.staleIfError, d.staleIfErrorSet),
      fun v d => { d with staleIfError := v.1, staleIfErrorSet := v.2 }, none⟩]

/-- The value of a directive after an occurrence with the argument `val`. -/
def DurDirective.read (f : DurDirective) (cur : Int × Bool) (val : Bytes) : Int × Bool :=
  match f.bare with
  | some dur => if val = [] then (dur, true) else parseDurStr cur.1 cur.2 val
  | none => parseDurStr cur.1 cur.2 val

def applyDurDirective (d : Directives) (key val : Bytes) : Directives :=
  match durDirectives.find? fun f => equalFold key f.name with
  | some f => f.put (f.read (f.get d) val) d
  | none => d

/-- `applyCCDirective`: `no-cache` with an argument only names fields. -/
def applyCCDirective (d : Directives) (token : Bytes × Bytes) : Directives :=
  let (key, val) := token
  if equalFold key (ascii "no-cache") ∧ val ≠ [] then { d with noCacheFields := val }
  else
    match applyBoolDirective d key with
    | some d => d
    | none => applyDurDirective d key val

def parseCacheControl (s : Bytes) : Directives := (tokens s).foldl applyCCDirective {}

section

variable {P : Directives → Prop} (hfields : ∀ d val, P d → P { d with noCacheFields := val })
  (hbool : ∀ d, P d → ∀ e ∈ boolDirectives, P (e.2 d))
  (hdur : ∀ d val, P d → ∀ f ∈ durDirectives, P (f.put (f.read (f.get d) val) d))
include hfields hbool hdur

theorem applyCCDirective_induction {d : Directives} (h : P d) (token : Bytes × Bytes) :
    P (applyCCDirective d token) := by
  obtain ⟨key, val⟩ := token
  unfold applyCCDirective applyBoolDirective applyDurDirective
  dsimp only
  split_ifs
  · exact hfields d val h
  · cases hfind : boolDirectives.find? fun e => equalFold key e.1 with
    | some e => exact hbool d h e (mem_of_find?_eq_some hfind)
    | none =>
      cases hfind : durDirectives.find? fun f => equalFold key f.name with
      | none => exact h
      | some f => exact hdur d val h f (mem_of_find?_eq_some hfind)

theorem parseCacheControl_induction (hinit : P {}) (s : Bytes) : P (parseCacheControl s) :=
  foldlRecOn _ _ hinit fun _ h t _ => applyCCDirective_induction hfields hbool hdur h t

end

/-! ## Directives by name -/

/-- A directive of the line, by its name. -/
def Says (s name : Bytes) : Prop := ∃ t ∈ tokens s, equalFold t.1 name = true

/-- A directive without an argument: its name and its flag. -/
structure Flag where
  name : Bytes
  get : Directives → Bool
  init : get {} = false := by rfl
  fields : ∀ d val, get { d with noCacheFields := val } = get d := by intros; rfl
  bool : ∀ d, ∀ e ∈ boolDirectives, get (e.2 d) = (get d || e.1 == name) := by
    simp only [boolDirectives, forall_mem_cons]
    intro d
    and_intros <;> simp <;> exact fun h => absurd h (by decide)
  dur : ∀ d v, ∀ f ∈ durDirectives, get (f.put v d) = get d := by simp [durDirectives]
  listed : ∃ e ∈ boolDirectives, e.1 = name
  own : name ≠ ascii "no-cache" := by decide

theorem fold_boolDirectives : ∀ e ∈ boolDirectives, toLower e.1 = e.1 := by decide

theorem Flag.applyCCDirective (f : Flag) (d : Directives) (t : Bytes × Bytes) :
    f.get (applyCCDirective d t) = (f.get d || equalFold t.1 f.name) := by
  obtain ⟨key, val⟩ := t
  obtain ⟨listed, hlisted, hname⟩ := f.listed
  have hlower : toLower f.name = f.name := hname ▸ fold_boolDirectives listed hlisted
  have hfold : ∀ s, toLower s = s → equalFold key s = true →
      equalFold key f.name = (s == f.name) := by
    intro s hs hkey
    have hkey : toLower key = toLower s := beq_iff_eq.1 hkey
    rw [equalFold, hkey, hs, hlower]
  unfold Header.applyCCDirective applyBoolDirective applyDurDirective
  dsimp only
  split_ifs with hfields
  · rw [f.fields, hfold _ (by decide) hfields.1, beq_false_of_ne (Ne.symm f.own), Bool.or_false]
  · cases hfind : boolDirectives.find? fun e => equalFold key e.1 with
    | some e =>
      have hmem := mem_of_find?_eq_some hfind
      have hkey : equalFold key e.1 = true := by
        simpa using find?_some hfind
      rw [hfold _ (fold_boolDirectives e hmem) hkey]
      exact f.bool d e hmem
    | none =>
      have hno : equalFold key f.name = false := by
        have hnone := find?_eq_none.1 hfind listed hlisted
        simpa [hname] using hnone
      rw [hno, Bool.or_false]
      cases hdur : durDirectives.find? fun f => equalFold key f.name with
      | none => rfl
      | some e => exact f.dur d _ e (mem_of_find?_eq_some hdur)

/-- A flag is set by the directives of its name. -/
theorem Flag.parseCacheControl_iff (f : Flag) (s : Bytes) :
    f.get (parseCacheControl s) = true ↔ Says s f.name := by
  have hfold : ∀ (ts : List (Bytes × Bytes)) (d : Directives),
      f.get (ts.foldl Header.applyCCDirective d) = true ↔
        f.get d = true ∨ ∃ t ∈ ts, equalFold t.1 f.name = true := by
    intro ts
    induction ts with
    | nil => simp
    | cons t ts ih =>
      intro d
      rw [foldl_cons, ih, f.applyCCDirective]
      simp [or_assoc]
  rw [parseCacheControl, hfold, f.init]
  simp [Says]

def Flag.noStore : Flag where
  name := ascii "no-store"
  get := Directives.noStore
  listed := ⟨_, .head _, rfl⟩

def Flag.isPrivate : Flag where
  name := ascii "private"
  get := Directives.isPrivate
  listed := ⟨_, .tail _ (.tail _ (.head _)), rfl⟩

def Flag.mustUnderstand : Flag where
  name := ascii "must-understand"
  get := Directives.mustUnderstand
  listed := ⟨_, mem_of_getLast? rfl, rfl⟩

theorem noStore_parseCacheControl (s : Bytes) :
    (parseCacheControl s).noStore = true ↔ Says s (ascii "no-store") :=
  Flag.noStore.parseCacheControl_iff s

theorem isPrivate_parseCacheControl (s : Bytes) :
    (parseCacheControl s).isPrivate = true ↔ Says s (ascii "private") :=
  Flag.isPrivate.parseCacheControl_iff s

theorem mustUnderstand_parseCacheControl (s : Bytes) :
    (parseCacheControl s).mustUnderstand = true ↔ Says s (ascii "must-understand") :=
  Flag.mustUnderstand.parseCacheControl_iff s

/-! ## Enough tokens -/

theorem length_scanCCValue (s : Bytes) : (scanCCValue s).2.length ≤ s.length := by
  have hq := length_dropWhile_le (fun c : UInt8 => c != byte '"') (s.drop 1)
  have hd := length_dropWhile_le (fun c : UInt8 => !isCCDelimiter c) s
  unfold scanCCValue
  split
  · simp only [length_drop] at hq ⊢
    omega
  · exact hd

variable {d d' : Directives} {s : Bytes}

theorem length_scanCCToken (hs : s ≠ []) (hd : s.dropWhile isCCDelimiter = s) :
    (scanCCToken s).2.length < s.length := by
  obtain ⟨c, s, rfl⟩ := exists_cons_of_ne_nil hs
  have hc : isCCDelimiter c = false := by
    by_contra h
    rw [dropWhile_cons_of_pos (by simpa using h)] at hd
    have := length_dropWhile_le isCCDelimiter s
    rw [hd, length_cons] at this
    omega
  have hle := length_dropWhile_le (fun c : UInt8 => !endsCCKey c) s
  unfold scanCCToken
  by_cases heq : c = byte '='
  · subst heq
    have hv := length_scanCCValue s
    have hend : endsCCKey (byte '=') = true := by decide
    simp only [hend, Bool.not_true, dropWhile_cons_of_neg, Bool.false_eq_true, not_false_eq_true,
      head?_cons, if_true, drop_succ_cons, drop_zero, length_cons]
    omega
  · have hend : endsCCKey c = false := by simp [endsCCKey, hc, heq]
    simp only [hend, Bool.not_false, dropWhile_cons_of_pos, length_cons]
    split
    · have hv := length_scanCCValue ((s.dropWhile (!endsCCKey ·)).drop 1)
      simp only [length_drop] at hv ⊢
      omega
    · show (s.dropWhile (!endsCCKey ·)).length < s.length + 1
      omega

theorem tokensUpTo_eq {n : Nat} (hn : s.length ≤ n) : tokensUpTo n s = tokens s := by
  induction n using Nat.strongRecOn generalizing s with
  | ind n ih =>
    have hle := length_dropWhile_le isCCDelimiter s
    unfold tokens
    cases n with
    | zero => rw [length_eq_zero_iff.1 (Nat.le_zero.1 hn)]; rfl
    | succ n =>
      cases hl : s.length with
      | zero => rw [length_eq_zero_iff.1 hl]; rfl
      | succ m =>
        simp only [tokensUpTo]
        split
        · rfl
        · next hne =>
          have hlt := length_scanCCToken hne (dropWhile_idempotent _ s)
          rw [ih n (by omega) (by omega), ih m (by omega) (by omega)]

theorem tokens_delimiters (h : s.dropWhile isCCDelimiter = []) : tokens s = [] := by
  unfold tokens
  cases hl : s.length with
  | zero => rfl
  | succ n => simp [tokensUpTo, h]

theorem tokens_step {s t : Bytes} (h : s.dropWhile isCCDelimiter = t) (ht : t ≠ []) :
    tokens s = (scanCCToken t).1 :: tokens (scanCCToken t).2 := by
  have hle := length_dropWhile_le isCCDelimiter s
  have hidem : t.dropWhile isCCDelimiter = t := by rw [← h, dropWhile_idempotent]
  have hlt := length_scanCCToken ht hidem
  rw [h] at hle
  rw [tokens]
  cases hl : s.length with
  | zero => omega
  | succ n =>
    simp only [tokensUpTo, h, ht, if_false]
    rw [tokensUpTo_eq (by omega)]

@[simp] theorem tokens_nil : tokens [] = [] := rfl

theorem tokens_dropWhile (s : Bytes) : tokens (s.dropWhile isCCDelimiter) = tokens s := by
  by_cases h : s.dropWhile isCCDelimiter = []
  · rw [h, tokens_delimiters h, tokens_nil]
  · rw [tokens_step (dropWhile_idempotent _ s) h, tokens_step rfl h]

theorem tokens_cons_delimiter {c : UInt8} (hc : isCCDelimiter c) (s : Bytes) :
    tokens (c :: s) = tokens s := by
  rw [← tokens_dropWhile, dropWhile_cons_of_pos hc, tokens_dropWhile]

/-! ## Quoted strings -/

inductive ScanState where
  | outside
  | valueStart
  | value
  | quoted
deriving DecidableEq

namespace ScanState

def next : ScanState → UInt8 → ScanState
  | outside, c => if c = byte '=' then valueStart else outside
  | valueStart, c => if c = byte '"' then quoted else if isCCDelimiter c then outside else value
  | value, c => if isCCDelimiter c then outside else value
  | quoted, c => if c = byte '"' then outside else quoted

def run (st : ScanState) (s : Bytes) : ScanState := s.foldl next st

end ScanState

open ScanState

def LeavesOpen (s : Bytes) : Prop := run outside s = quoted

instance (s : Bytes) : Decidable (LeavesOpen s) := inferInstanceAs (Decidable (_ = _))

theorem run_append (st : ScanState) (a b : Bytes) : run st (a ++ b) = run (run st a) b :=
  foldl_append

theorem run_dropWhile {st : ScanState} {p : UInt8 → Bool} (h : ∀ c, p c → next st c = st) (s : Bytes) :
    run st (s.dropWhile p) = run st s := by
  induction s with
  | nil => rfl
  | cons c s ih =>
    by_cases hc : p c = true
    · rw [dropWhile_cons_of_pos hc, ih, run, run, foldl_cons, h c hc]
    · rw [dropWhile_cons_of_neg hc]

theorem ne_sign_of_delimiter {c : UInt8} (hc : isCCDelimiter c) : c ≠ byte '=' ∧ c ≠ byte '"' := by
  constructor <;> (rintro rfl; exact absurd hc (by decide))

theorem next_delimiter {st : ScanState} {c : UInt8} (hst : st ≠ quoted) (hc : isCCDelimiter c) :
    next st c = outside := by
  have hne := ne_sign_of_delimiter hc
  cases st with
  | outside => exact if_neg hne.1
  | valueStart => rw [ScanState.next, if_neg hne.2, if_pos hc]
  | value => exact if_pos hc
  | quoted => cases hst rfl

/-! ## Joined values -/

/-- A span of a longer text goes on in what is added if nothing ends it, and else ends where it
did. -/
theorem span_cases (p : UInt8 → Bool) (s : Bytes) :
    s.dropWhile p = [] ∧
        (∀ b, (s ++ b).takeWhile p = s ++ b.takeWhile p ∧ (s ++ b).dropWhile p = b.dropWhile p) ∨
      ∃ e r, p e = false ∧ s.dropWhile p = e :: r ∧ r.length < s.length ∧
        ∀ b, (s ++ b).takeWhile p = s.takeWhile p ∧ (s ++ b).dropWhile p = e :: r ++ b := by
  induction s with
  | nil => exact .inl ⟨rfl, fun b => ⟨rfl, rfl⟩⟩
  | cons x s ih =>
    by_cases hx : p x = true
    · simp only [cons_append, takeWhile_cons_of_pos hx, dropWhile_cons_of_pos hx, cons.injEq, true_and,
        length_cons]
      exact ih.imp_right fun ⟨e, r, he, hr, hlen, h⟩ => ⟨e, r, he, hr, by omega, h⟩
    · exact .inr ⟨x, s, by simpa using hx, by simp [hx], by simp, fun b => by simp [hx]⟩

theorem scanCCValue_append (s : Bytes) :
    (∃ v w, w.length ≤ s.length ∧ run valueStart s = run outside w ∧
        ∀ b, scanCCValue (s ++ b) = (v, w ++ b)) ∨
      (∃ v, scanCCValue s = (v, []) ∧
        ∀ c b, isCCDelimiter c → scanCCValue (s ++ c :: b) = (v, c :: b)) ∨
      run valueStart s = quoted ∧ ∃ v, ∀ b, scanCCValue (s ++ b) =
        (v ++ b.takeWhile (· != byte '"'), (b.dropWhile (· != byte '"')).drop 1) := by
  cases s with
  | nil =>
    refine .inr (.inl ⟨[], rfl, fun c b hc => ?_⟩)
    simp [scanCCValue, (ne_sign_of_delimiter hc).2, hc]
  | cons x s =>
    by_cases hx : x = byte '"'
    · subst hx
      have hscan : ∀ b, scanCCValue (byte '"' :: s ++ b) =
          ((s ++ b).takeWhile (· != byte '"'), ((s ++ b).dropWhile (· != byte '"')).drop 1) := by
        intro b
        simp [scanCCValue]
      have hquoted (c : UInt8) (hc : (c != byte '"') = true) : next quoted c = quoted :=
        if_neg (by simpa using hc)
      have hrun : run valueStart (byte '"' :: s) = run quoted (s.dropWhile (· != byte '"')) :=
        (run_dropWhile hquoted s).symm
      rcases span_cases (· != byte '"') s with ⟨hw, hopen⟩ | ⟨y, w, hy, hw, hlen, hspan⟩ <;>
        rw [hw] at hrun
      · refine .inr (.inr ⟨hrun, s, fun b => ?_⟩)
        rw [hscan, (hopen b).1, (hopen b).2]
      · obtain rfl : y = byte '"' := by simpa using hy
        refine .inl ⟨s.takeWhile (· != byte '"'), w, hlen.le.trans (Nat.le_succ _), hrun, fun b => ?_⟩
        rw [hscan, (hspan b).1, (hspan b).2]
        rfl
    · have hscan : ∀ b, scanCCValue (x :: s ++ b) =
          ((x :: s ++ b).takeWhile (!isCCDelimiter ·), (x :: s ++ b).dropWhile (!isCCDelimiter ·)) := by
        intro b
        simp [scanCCValue, hx]
      rcases span_cases (!isCCDelimiter ·) (x :: s) with ⟨-, hend⟩ | ⟨d, w, hd, hw, hlen, hspan⟩
      · refine .inr (.inl ⟨x :: s, ?_, fun c b hc => ?_⟩)
        · have hall := hscan []
          rw [(hend []).1, (hend []).2] at hall
          simpa using hall
        · rw [hscan, (hend _).1, (hend _).2]
          simp [hc]
      · refine .inl ⟨(x :: s).takeWhile (!isCCDelimiter ·), d :: w, hlen, ?_, fun b => ?_⟩
        · have hstart : run valueStart (x :: s) = run value (x :: s) := by
            simp [run, ScanState.next, hx]
          have hd : isCCDelimiter d = true := by simpa using hd
          have hvalue (c : UInt8) (hc : (!isCCDelimiter c) = true) : next value c = value :=
            if_neg (by simpa using hc)
          rw [hstart, ← run_dropWhile hvalue, hw]
          show run (next value d) w = run (next outside d) w
          rw [next_delimiter (by decide) hd, next_delimiter (by decide) hd]
        · rw [hscan, (hspan b).1, (hspan b).2]

theorem scanCCToken_append (hs : s ≠ []) (hd : s.dropWhile isCCDelimiter = s) :
    (∃ token w, w.length < s.length ∧ run outside s = run outside w ∧
        ∀ b, scanCCToken (s ++ b) = (token, w ++ b)) ∨
      (∃ token, scanCCToken s = (token, []) ∧
        ∀ c b, isCCDelimiter c → scanCCToken (s ++ c :: b) = (token, c :: b)) ∨
      run outside s = quoted ∧ ∃ key v, ∀ b, scanCCToken (s ++ b) =
        ((key, v ++ b.takeWhile (· != byte '"')), (b.dropWhile (· != byte '"')).drop 1) := by
  have hlt := length_scanCCToken hs hd
  rcases span_cases (!endsCCKey ·) s with ⟨hr, hkey⟩ | ⟨e, r, -, hr, hlen, hspan⟩
  · -- the key ends with the string
    refine .inr (.inl ⟨(s, []), ?_, fun c b hc => ?_⟩)
    · have htake := (hkey []).1
      simp only [append_nil, takeWhile_nil] at htake
      simp [scanCCToken, hr, htake]
    · have hend : endsCCKey c = true := by simp [endsCCKey, hc]
      simp [scanCCToken, hkey, hend, (ne_sign_of_delimiter hc).1]
  · have hscan : ∀ b, scanCCToken (s ++ b) =
        if e = byte '=' then ((s.takeWhile (!endsCCKey ·), (scanCCValue (r ++ b)).1),
          (scanCCValue (r ++ b)).2)
        else ((s.takeWhile (!endsCCKey ·), []), e :: r ++ b) := by
      intro b
      simp [scanCCToken, hspan]
    have hrun : run outside s = run (next outside e) r := by
      have hkey (c : UInt8) (hc : (!endsCCKey c) = true) : next outside c = outside := by
        refine if_neg ?_
        rintro rfl
        exact absurd hc (by decide)
      rw [← run_dropWhile hkey, hr]
      rfl
    by_cases he : e = byte '='
    · simp only [if_pos he] at hscan
      rw [ScanState.next, if_pos he] at hrun
      rcases scanCCValue_append r with ⟨v, w, hw, hrest, hval⟩ | ⟨v, hval, hval'⟩ | ⟨hopen, v, hval⟩
      · refine .inl ⟨(s.takeWhile (!endsCCKey ·), v), w, by omega, hrun.trans hrest, fun b => ?_⟩
        rw [hscan, hval]
      · refine .inr (.inl ⟨(s.takeWhile (!endsCCKey ·), v), ?_, fun c b hc => ?_⟩)
        · have := hscan []
          rwa [append_nil, append_nil, hval] at this
        · rw [hscan, hval' c b hc]
      · refine .inr (.inr ⟨hrun.trans hopen, s.takeWhile (!endsCCKey ·), v, fun b => ?_⟩)
        rw [hscan, hval]
    · simp only [if_neg he] at hscan
      refine .inl ⟨(s.takeWhile (!endsCCKey ·), []), e :: r, ?_, hrun, hscan⟩
      have := hscan []
      rw [append_nil] at this
      rw [this] at hlt
      simpa using hlt

/-- What follows a value is read on its own, unless the value leaves a quote open: then the last
token goes on to the next quote. -/
theorem tokens_join (a : Bytes) :
    (∀ c b, isCCDelimiter c → tokens (a ++ c :: b) = tokens a ++ tokens b) ∨
      LeavesOpen a ∧ ∃ ts key v, ∀ b, tokens (a ++ b) =
        ts ++ (key, v ++ b.takeWhile (· != byte '"')) ::
          tokens ((b.dropWhile (· != byte '"')).drop 1) := by
  induction hn : a.length using Nat.strongRecOn generalizing a with
  | ind n ih =>
    rcases span_cases isCCDelimiter a with ⟨ht, hall⟩ | ⟨x, t, -, ht, hle, hspan⟩
    · -- no token at all
      refine .inl fun c b hc => ?_
      rw [← tokens_dropWhile, (hall _).2, dropWhile_cons_of_pos hc, tokens_dropWhile,
        tokens_delimiters ht]
      rfl
    · have hidem : (x :: t).dropWhile isCCDelimiter = x :: t := by
        rw [← ht, dropWhile_idempotent]
      have hstart : run outside a = run outside (x :: t) := by
        rw [← ht, run_dropWhile fun c hc => next_delimiter (by decide) hc]
      have hstep : ∀ b, tokens (a ++ b) =
          (scanCCToken (x :: t ++ b)).1 :: tokens (scanCCToken (x :: t ++ b)).2 :=
        fun b => tokens_step (hspan b).2 (by simp)
      have hnil := hstep []
      simp only [append_nil] at hnil
      rcases scanCCToken_append (by simp) hidem with
        ⟨token, w, hw, hrun, hscan⟩ | ⟨token, hscan, hscan'⟩ | ⟨hopen, key, v, hscan⟩
      · rw [length_cons] at hw
        have hnext (b : Bytes) : tokens (a ++ b) = token :: tokens (w ++ b) := by rw [hstep, hscan]
        rcases ih w.length (by omega) w rfl with hclosed | ⟨hopen, ts, key, v, hopens⟩
        · have hone := hnext []
          simp only [append_nil] at hone
          exact .inl fun c b hc => by rw [hnext, hone, hclosed c b hc, cons_append]
        · refine .inr ⟨hstart.trans (hrun.trans hopen), token :: ts, key, v, fun b => ?_⟩
          rw [hnext, hopens, cons_append]
      · refine .inl fun c b hc => ?_
        rw [hstep, hscan' c b hc, hnil, hscan, tokens_nil, tokens_cons_delimiter hc]
        rfl
      · exact .inr ⟨hstart.trans hopen, [], key, v, fun b => by rw [hstep, hscan]; rfl⟩

/-! ## Empty lines

Lines are joined with `, `. A line without a value leaves a doubled separator behind, which can show
only in the argument of an open quote.
-/

/-- The directives that decide about storing are the same; `no-cache` on the left is on the right
too. -/
structure Agrees (d d' : Directives) : Prop where
  noStore : d.noStore = d'.noStore
  mustUnderstand : d.mustUnderstand = d'.mustUnderstand
  isPrivate : d.isPrivate = d'.isPrivate
  isPublic : d.isPublic = d'.isPublic
  mustRevalidate : d.mustRevalidate = d'.mustRevalidate
  maxAge : (d.maxAge, d.maxAgeSet) = (d'.maxAge, d'.maxAgeSet)
  sMaxAge : (d.sMaxAge, d.sMaxAgeSet) = (d'.sMaxAge, d'.sMaxAgeSet)
  noCache : d.noCache = true → d'.noCache = true

theorem Agrees.refl (d : Directives) : Agrees d d := ⟨rfl, rfl, rfl, rfl, rfl, rfl, rfl, id⟩

theorem Agrees.trans {d d' d'' : Directives} (h : Agrees d d') (h' : Agrees d' d'') :
    Agrees d d'' :=
  ⟨h.1.trans h'.1, h.2.trans h'.2, h.3.trans h'.3, h.4.trans h'.4, h.5.trans h'.5,
    h.6.trans h'.6, h.7.trans h'.7, h'.8 ∘ h.8⟩

theorem Agrees.maxAgeSet (h : Agrees d d') : d.maxAgeSet = d'.maxAgeSet :=
  congrArg Prod.snd h.maxAge

theorem Agrees.sMaxAgeSet (h : Agrees d d') : d.sMaxAgeSet = d'.sMaxAgeSet :=
  congrArg Prod.snd h.sMaxAge

theorem agrees_boolDirectives (h : Agrees d d') :
    ∀ e ∈ boolDirectives, Agrees (e.2 d) (e.2 d') := by
  have hrest : ∀ i t o : Bool → Bool, Agrees
      { d with immutable := i d.immutable, noTransform := t d.noTransform,
               onlyIfCached := o d.onlyIfCached }
      { d' with immutable := i d'.immutable, noTransform := t d'.noTransform,
                onlyIfCached := o d'.onlyIfCached } :=
    fun _ _ _ => ⟨h.1, h.2, h.3, h.4, h.5, h.6, h.7, h.8⟩
  simp only [boolDirectives, forall_mem_cons]
  exact ⟨{ h with noStore := rfl }, { h with noCache := fun _ => rfl }, { h with isPrivate := rfl },
    { h with isPublic := rfl }, { h with mustRevalidate := rfl },
    { h with noStore := h.noStore }, hrest (fun _ => true) id id, hrest id (fun _ => true) id,
    hrest id id (fun _ => true), { h with mustUnderstand := rfl }, by simp⟩

theorem agrees_durDirectives (h : Agrees d d') {v v' : Bytes}
    (hv : parseIntNoAlloc v = parseIntNoAlloc v') : ∀ f ∈ durDirectives,
    Agrees (f.put (f.read (f.get d) v) d) (f.put (f.read (f.get d') v') d') := by
  have hdur : ∀ dur isSet, parseDurStr dur isSet v = parseDurStr dur isSet v' := by
    intro dur isSet
    simp [parseDurStr, hv]
  have hread : ∀ p p' : Int × Bool, p = p' →
      parseDurStr p.1 p.2 v = parseDurStr p'.1 p'.2 v' := by
    intro p p' hp
    rw [hp, hdur]
  simp only [durDirectives, forall_mem_cons]
  exact ⟨{ h with maxAge := hread _ _ h.maxAge }, { h with sMaxAge := hread _ _ h.sMaxAge },
    { h with noStore := h.noStore }, { h with noStore := h.noStore },
    { h with noStore := h.noStore }, { h with noStore := h.noStore }, by simp⟩

theorem applyBoolDirective_noCache {key : Bytes} (hkey : equalFold key (ascii "no-cache"))
    (d : Directives) : applyBoolDirective d key = some { d with noCache := true } := by
  have hlower : toLower key = ascii "no-cache" := beq_iff_eq.1 hkey
  have hfold : ∀ s, equalFold key s = (ascii "no-cache" == toLower s) := by
    intro s
    rw [equalFold, hlower]
  have hmiss : equalFold key (ascii "no-store") = false := by
    rw [hfold]
    decide
  simp [applyBoolDirective, boolDirectives, hmiss, hkey]

theorem Agrees.applyCCDirective (h : Agrees d d') (key : Bytes) {v v' : Bytes}
    (hv : parseIntNoAlloc v = parseIntNoAlloc v') (hne : v = [] → v' = []) :
    Agrees (applyCCDirective d (key, v)) (applyCCDirective d' (key, v')) := by
  have hbare : Agrees
      (match applyBoolDirective d key with
        | some d => d
        | none => applyDurDirective d key v)
      (match applyBoolDirective d' key with
        | some d => d
        | none => applyDurDirective d' key v') := by
    unfold applyBoolDirective applyDurDirective
    cases hfind : boolDirectives.find? fun e => equalFold key e.1 with
    | some e => exact agrees_boolDirectives h e (mem_of_find?_eq_some hfind)
    | none =>
      cases hfind : durDirectives.find? fun f => equalFold key f.name with
      | none => exact h
      | some f => exact agrees_durDirectives h hv f (mem_of_find?_eq_some hfind)
  unfold Header.applyCCDirective
  dsimp only
  by_cases hkey : equalFold key (ascii "no-cache") = true
  · by_cases hv0 : v = []
    · rw [if_neg (by simp [hv0]), if_neg (by simp [hne hv0])]
      exact hbare
    · rw [if_pos ⟨hkey, hv0⟩]
      split_ifs
      · exact { h with noStore := h.noStore }
      · rw [applyBoolDirective_noCache hkey]
        exact { h with noCache := fun _ => rfl }
  · rw [if_neg (by simp [hkey]), if_neg (by simp [hkey])]
    exact hbare

theorem Agrees.foldl (h : Agrees d d') (ts : List (Bytes × Bytes)) :
    Agrees (ts.foldl Header.applyCCDirective d) (ts.foldl Header.applyCCDirective d') := by
  induction ts generalizing d d' with
  | nil => exact h
  | cons t ts ih => exact ih (h.applyCCDirective t.1 rfl id)

theorem parseIntNoAlloc_append {b : Bytes} (hb : ∀ c ∈ b.head?, isCCDelimiter c)
    (v : Bytes) : parseIntNoAlloc (v ++ b) = parseIntNoAlloc v := by
  have htake : (v ++ b).takeWhile isDigit = v.takeWhile isDigit := by
    induction v with
    | nil =>
      cases b with
      | nil => rfl
      | cons c b =>
        have hc := hb c rfl
        have hdigit : isDigit c = false := by
          simp only [isCCDelimiter, Bool.or_eq_true, beq_iff_eq] at hc
          rcases hc with (rfl | rfl) | rfl <;> decide
        simp [hdigit]
    | cons x v ih => simp [takeWhile_cons, ih]
  rw [parseIntNoAlloc, parseIntNoAlloc, htake]

def comma : Bytes := ascii ", "

theorem agrees_extra_comma (a r : Bytes) (hr : ∀ c ∈ r.head?, c = byte ',') :
    Agrees (parseCacheControl (a ++ (comma ++ r))) (parseCacheControl (a ++ r)) := by
  have hcomma : isCCDelimiter (byte ',') = true := by decide
  have hspace : isCCDelimiter (byte ' ') = true := by decide
  have hsep : comma ++ r = byte ',' :: byte ' ' :: r := rfl
  unfold parseCacheControl
  rcases tokens_join a with hclosed | ⟨-, ts, key, v, hopen⟩
  · have hr' : tokens (a ++ r) = tokens a ++ tokens r := by
      cases r with
      | nil => simp
      | cons c r =>
        obtain rfl := hr c rfl
        rw [hclosed _ _ hcomma, tokens_cons_delimiter hcomma]
    rw [hsep, hclosed _ _ hcomma, tokens_cons_delimiter hspace, hr']
    exact Agrees.refl _
  · -- the argument goes on to the next quote, on both sides
    have hq : ∀ s : Bytes, (comma ++ s).takeWhile (· != byte '"') =
        comma ++ s.takeWhile (· != byte '"') := fun _ => rfl
    have hhead : ∀ c ∈ (r.takeWhile (· != byte '"')).head?, isCCDelimiter c = true := by
      cases r with
      | nil => simp
      | cons c r =>
        obtain rfl := hr c rfl
        intro c hc
        cases hc
        exact hcomma
    rw [hopen, hopen, hq, foldl_append, foldl_append]
    refine Agrees.foldl ((Agrees.refl _).applyCCDirective key ?_ ?_) _
    · rw [parseIntNoAlloc_append (by simpa [comma, ascii] using hcomma),
        parseIntNoAlloc_append hhead]
    · simp [comma, ascii]

def moreLines (ls : List Bytes) : Bytes := ls.flatMap (comma ++ ·)

theorem intercalate_cons (v : Bytes) (ls : List Bytes) :
    List.intercalate comma (v :: ls) = v ++ moreLines ls := by
  induction ls generalizing v with
  | nil => simp [moreLines]
  | cons w ls ih =>
    rw [intercalate_cons_cons, ih]
    simp [moreLines]

theorem head_moreLines (ls : List Bytes) : ∀ c ∈ (moreLines ls).head?, c = byte ',' := by
  cases ls with
  | nil => simp [moreLines]
  | cons v ls =>
    intro c hc
    exact (Option.some.inj hc).symm

theorem agrees_moreLines (a : Bytes) (ls : List Bytes) :
    Agrees (parseCacheControl (a ++ moreLines ls))
      (parseCacheControl (a ++ moreLines (ls.filter (· ≠ [])))) := by
  induction ls generalizing a with
  | nil => exact Agrees.refl _
  | cons v ls ih =>
    have hcons : ∀ w ls', moreLines (w :: ls') = comma ++ w ++ moreLines ls' := by
      intro w ls'
      simp [moreLines]
    by_cases hv : v = []
    · have hstep := agrees_extra_comma a (moreLines ls) (head_moreLines ls)
      rw [hv]
      exact hstep.trans (ih a)
    · rw [filter_cons_of_pos (by simp [hv]), hcons, hcons]
      simpa using ih (a ++ (comma ++ v))

theorem parseCacheControl_comma (s : Bytes) : parseCacheControl (comma ++ s) = parseCacheControl s := by
  have hsep : comma ++ s = byte ',' :: byte ' ' :: s := rfl
  rw [parseCacheControl, hsep, tokens_cons_delimiter (by decide), tokens_cons_delimiter (by decide),
    parseCacheControl]

theorem agrees_joined_lines (ls : List Bytes) :
    Agrees (parseCacheControl (List.intercalate comma ls))
      (parseCacheControl (List.intercalate comma (ls.filter (· ≠ [])))) := by
  cases ls with
  | nil => exact Agrees.refl _
  | cons v ls =>
    have h := agrees_moreLines v ls
    rw [intercalate_cons]
    by_cases hv : v = []
    · rw [filter_cons_of_neg (by simp [hv])]
      rw [hv] at h ⊢
      cases hls : ls.filter (· ≠ []) with
      | nil =>
        rw [hls] at h
        exact h
      | cons w ls' =>
        rw [hls, nil_append, nil_append, moreLines, moreLines, flatMap_cons,
          append_assoc, parseCacheControl_comma] at h
        rw [intercalate_cons]
        exact h
    · rw [filter_cons_of_pos (by simp [hv]), intercalate_cons]
      exact h

end Bouine.Header
