import Bouine.Lib.IndexLoop
import Bouine.Header.Directives

/-! # Cache-Control directives of a byte slice

`ParseCacheControlBytes` of `pkg/header/cachedirectives.go`, used on the hit path: the tokenizer
with an index into the slice, and the dispatch written out a second time. It gives what
`ParseCacheControl` gives.
-/

namespace Bouine.Header

open Lib List

/-! ## Tokens -/

def skipCCDelimitersBytes (s : Array UInt8) (i : Nat) : Nat :=
  indexWhile (fun c => c == byte ' ' || c == byte ',' || c == byte '\t') s i

def scanCCValueBytes (s : Array UInt8) (i : Nat) : Array UInt8 × Nat :=
  if s[i]? = some (byte '"') then
    let start := i + 1
    let i := indexWhile (fun c => c != byte '"') s start
    (s.extract start i, if i < s.size then i + 1 else i)
  else
    let start := i
    let i := indexWhile (fun c => c != byte ',' && c != byte ' ' && c != byte '\t') s start
    (s.extract start i, i)

def scanCCTokenBytes (s : Array UInt8) (keyStart : Nat) : (Array UInt8 × Array UInt8) × Nat :=
  let i := indexWhile
    (fun c => c != byte '=' && c != byte ',' && c != byte ' ' && c != byte '\t') s keyStart
  let key := s.extract keyStart i
  if s[i]? = some (byte '=') then
    let (val, i) := scanCCValueBytes s (i + 1)
    ((key, val), i)
  else ((key, #[]), i)

/-! ## Numbers and names -/

def parseIntBytesFrom (s : Array UInt8) (i : Nat) (n : Int) (found : Bool) : Int × Bool :=
  if h : i < s.size then
    let c := s[i]
    if c < byte '0' ∨ byte '9' < c then (n, found)
    else parseIntBytesFrom s (i + 1) (wrap64 (n * 10 + (c.toNat - 48))) true
  else (n, found)
termination_by s.size - i

def parseIntBytes (s : Array UInt8) : Int × Bool :=
  if s.size = 0 then (0, false) else parseIntBytesFrom s 0 0 false

def parseDurBytes (dur : Int × Bool) (val : Array UInt8) : Int × Bool :=
  let (n, ok) := parseIntBytes val
  if !ok then dur
  else
    let d := wrap64 (n * second)
    if !dur.2 || d > dur.1 then (d, true) else dur

def eqFoldBytesFrom (a b : Array UInt8) (hsize : a.size = b.size) (i : Nat) : Bool :=
  if ha : i < a.size then
    have hb : i < b.size := hsize ▸ ha
    if toLowerByte a[i] != toLowerByte b[i] then false else eqFoldBytesFrom a b hsize (i + 1)
  else true
termination_by a.size - i

def eqFoldBytes (a b : Array UInt8) : Bool :=
  if h : a.size = b.size then eqFoldBytesFrom a b h 0 else false

/-! ## Directives -/

def bytesOf (name : String) : Array UInt8 := (ascii name).toArray

/-- `none` if the key is no such directive. -/
def applyBoolDirectiveBytes (d : Directives) (key : Array UInt8) : Option Directives :=
  if eqFoldBytes key (bytesOf "no-store") then some { d with noStore := true }
  else if eqFoldBytes key (bytesOf "no-cache") then some { d with noCache := true }
  else if eqFoldBytes key (bytesOf "private") then some { d with isPrivate := true }
  else if eqFoldBytes key (bytesOf "public") then some { d with isPublic := true }
  else if eqFoldBytes key (bytesOf "must-revalidate") then some { d with mustRevalidate := true }
  else if eqFoldBytes key (bytesOf "proxy-revalidate") then some { d with proxyRevalidate := true }
  else if eqFoldBytes key (bytesOf "immutable") then some { d with immutable := true }
  else if eqFoldBytes key (bytesOf "no-transform") then some { d with noTransform := true }
  else if eqFoldBytes key (bytesOf "only-if-cached") then some { d with onlyIfCached := true }
  else if eqFoldBytes key (bytesOf "must-understand") then some { d with mustUnderstand := true }
  else none

def applyDurDirectiveBytes (d : Directives) (key val : Array UInt8) : Directives :=
  if eqFoldBytes key (bytesOf "max-age") then
    let v := parseDurBytes (d.maxAge, d.maxAgeSet) val
    { d with maxAge := v.1, maxAgeSet := v.2 }
  else if eqFoldBytes key (bytesOf "s-maxage") then
    let v := parseDurBytes (d.sMaxAge, d.sMaxAgeSet) val
    { d with sMaxAge := v.1, sMaxAgeSet := v.2 }
  else if eqFoldBytes key (bytesOf "min-fresh") then
    let v := parseDurBytes (d.minFresh, d.minFreshSet) val
    { d with minFresh := v.1, minFreshSet := v.2 }
  else if eqFoldBytes key (bytesOf "max-stale") then
    if val.size = 0 then { d with maxStale := 2 ^ 63 - 1, maxStaleSet := true }
    else
      let v := parseDurBytes (d.maxStale, d.maxStaleSet) val
      { d with maxStale := v.1, maxStaleSet := v.2 }
  else if eqFoldBytes key (bytesOf "stale-while-revalidate") then
    let v := parseDurBytes (d.staleWhileRevalid, d.staleWhileRevalidSet) val
    { d with staleWhileRevalid := v.1, staleWhileRevalidSet := v.2 }
  else if eqFoldBytes key (bytesOf "stale-if-error") then
    let v := parseDurBytes (d.staleIfError, d.staleIfErrorSet) val
    { d with staleIfError := v.1, staleIfErrorSet := v.2 }
  else d

def applyCCDirectiveBytes (d : Directives) (key val : Array UInt8) : Directives :=
  if eqFoldBytes key (bytesOf "no-cache") ∧ 0 < val.size then { d with noCacheFields := val.toList }
  else
    match applyBoolDirectiveBytes d key with
    | some d => d
    | none => applyDurDirectiveBytes d key val

/-! ## The tokens of the list -/

theorem getElem?_eq_head? (s : Array UInt8) (i : Nat) : s[i]? = (s.toList.drop i).head? := by
  rw [head?_drop, Array.getElem?_toList]

theorem drop_skipCCDelimitersBytes (s : Array UInt8) (i : Nat) :
    s.toList.drop (skipCCDelimitersBytes s i) = (s.toList.drop i).dropWhile isCCDelimiter :=
  drop_indexWhile _ s i

theorem not_isCCDelimiter_eq :
    (fun c => c != byte ',' && c != byte ' ' && c != byte '\t') = fun c => !isCCDelimiter c := by
  funext c
  unfold isCCDelimiter
  rw [Bool.not_or, Bool.not_or, Bool.and_comm (c != byte ',')]
  rfl

theorem not_endsCCKey_eq :
    (fun c => c != byte '=' && c != byte ',' && c != byte ' ' && c != byte '\t') =
      fun c => !endsCCKey c := by
  funext c
  have h := congrFun not_isCCDelimiter_eq c
  rw [endsCCKey, Bool.not_or, ← h, Bool.and_assoc, Bool.and_assoc, Bool.and_assoc]
  rfl

theorem scanCCValueBytes_eq (s : Array UInt8) (i : Nat) :
    scanCCValue (s.toList.drop i) =
      ((scanCCValueBytes s i).1.toList, s.toList.drop (scanCCValueBytes s i).2) := by
  unfold scanCCValue scanCCValueBytes
  rw [getElem?_eq_head?, not_isCCDelimiter_eq]
  by_cases hquote : (s.toList.drop i).head? = some (byte '"')
  · simp only [if_pos hquote, extract_indexWhile, drop_drop, Prod.mk.injEq, true_and,
      ← drop_indexWhile]
    -- the closing quote is skipped if there is one
    split_ifs with hend
    · rfl
    · rw [drop_toList_nil hend, drop_toList_nil (by omega)]
  · simp only [if_neg hquote, extract_indexWhile, drop_indexWhile]

theorem scanCCTokenBytes_eq (s : Array UInt8) (i : Nat) :
    scanCCToken (s.toList.drop i) =
      (((scanCCTokenBytes s i).1.1.toList, (scanCCTokenBytes s i).1.2.toList),
        s.toList.drop (scanCCTokenBytes s i).2) := by
  unfold scanCCToken scanCCTokenBytes
  dsimp only
  rw [not_endsCCKey_eq, ← drop_indexWhile, ← extract_indexWhile, getElem?_eq_head?]
  split_ifs with hsign
  · rw [drop_drop, scanCCValueBytes_eq]
  · rfl

/-! ## The loop over the slice -/

theorem lt_scanCCTokenBytes {s : Array UInt8} {i : Nat} (h : skipCCDelimitersBytes s i < s.size) :
    i < (scanCCTokenBytes s (skipCCDelimitersBytes s i)).2 := by
  have hle : i ≤ skipCCDelimitersBytes s i := le_indexWhile _ s i
  have hne : s.toList.drop (skipCCDelimitersBytes s i) ≠ [] := by
    rw [drop_toList_cons h]
    exact cons_ne_nil _ _
  have hlt := length_scanCCToken hne (by rw [drop_skipCCDelimitersBytes, dropWhile_idempotent])
  rw [scanCCTokenBytes_eq, length_drop, length_drop] at hlt
  omega

def parseCacheControlBytesFrom (cc : Array UInt8) (i : Nat) (d : Directives) : Directives :=
  if i < cc.size then
    let j := skipCCDelimitersBytes cc i
    if h : j < cc.size then
      have := lt_scanCCTokenBytes h
      let token := scanCCTokenBytes cc j
      parseCacheControlBytesFrom cc token.2 (applyCCDirectiveBytes d token.1.1 token.1.2)
    else d
  else d
termination_by cc.size - i

def parseCacheControlBytes (cc : Array UInt8) : Directives := parseCacheControlBytesFrom cc 0 {}

/-! ## The same directives -/

theorem eqFoldBytesFrom_eq {a b : Array UInt8} (h : a.size = b.size) (i : Nat) :
    eqFoldBytesFrom a b h i = equalFold (a.toList.drop i) (b.toList.drop i) := by
  unfold equalFold toLower
  fun_induction eqFoldBytesFrom a b h i with
  | case1 i ha hb hne =>
    rw [drop_toList_cons ha, drop_toList_cons hb]
    simp_all
  | case2 i ha hb hne ih =>
    rw [drop_toList_cons ha, drop_toList_cons hb]
    simp_all
  | case3 i ha => rw [drop_toList_nil ha, drop_toList_nil (h ▸ ha)]; rfl

theorem eqFoldBytes_eq (a b : Array UInt8) : eqFoldBytes a b = equalFold a.toList b.toList := by
  unfold eqFoldBytes
  split_ifs with h
  · exact eqFoldBytesFrom_eq h 0
  · refine (beq_eq_false_iff_ne.2 fun heq => h ?_).symm
    simpa [toLower] using congrArg length heq

theorem parseIntBytesFrom_eq (s : Array UInt8) (i : Nat) (n : Int) (found : Bool) :
    parseIntBytesFrom s i n found =
      (((s.toList.drop i).takeWhile isDigit).foldl (fun n c => wrap64 (n * 10 + (c.toNat - 48))) n,
        found || ((s.toList.drop i).takeWhile isDigit) ≠ []) := by
  fun_induction parseIntBytesFrom s i n found with
  | case1 i n found h c hc =>
    have hdigit : ¬ isDigit s[i] = true := by
      simp only [isDigit, Bool.and_eq_true, decide_eq_true_eq, not_and_or, UInt8.not_le]
      exact hc
    rw [drop_toList_cons h, takeWhile_cons_of_neg hdigit]
    simp
  | case2 i n found h c hc ih =>
    have hdigit : isDigit s[i] = true := by
      simp only [not_or, UInt8.not_lt] at hc
      simp only [isDigit, Bool.and_eq_true, decide_eq_true_eq]
      exact hc
    rw [ih, drop_toList_cons h, takeWhile_cons_of_pos hdigit]
    simp [c]
  | case3 i n found h =>
    rw [drop_toList_nil h]
    simp

theorem parseIntBytes_eq (s : Array UInt8) : parseIntNoAlloc s.toList =
    if (parseIntBytes s).2 then some (parseIntBytes s).1 else none := by
  have hloop := parseIntBytesFrom_eq s 0 0 false
  rw [drop_zero] at hloop
  unfold parseIntBytes parseIntNoAlloc
  rw [hloop]
  by_cases hs : s.size = 0
  · obtain rfl := Array.eq_empty_of_size_eq_zero hs
    rfl
  · rw [if_neg hs]
    by_cases hdigits : s.toList.takeWhile isDigit = []
    · simp [hdigits]
    · simp [hdigits]

theorem parseDurBytes_eq (dur : Int × Bool) (val : Array UInt8) :
    parseDurBytes dur val = parseDurStr dur.1 dur.2 val.toList := by
  unfold parseDurBytes parseDurStr
  rw [parseIntBytes_eq]
  obtain ⟨n, ok⟩ := parseIntBytes val
  cases ok <;> rfl

theorem find?_map_cons {α β : Type} (p : α → Bool) (f : α → β) (x : α) (l : List α) :
    ((x :: l).find? p).map f = if p x then some (f x) else (l.find? p).map f := by
  rw [find?_cons]
  cases p x <;> rfl

theorem applyBoolDirectiveBytes_eq (d : Directives) (key : Array UInt8) :
    applyBoolDirectiveBytes d key = applyBoolDirective d key.toList := by
  simp only [applyBoolDirectiveBytes, applyBoolDirective, eqFoldBytes_eq, boolDirectives,
    find?_map_cons]
  rfl

theorem applyDurDirective_eq (d : Directives) (key val : Bytes) : applyDurDirective d key val =
    ((durDirectives.find? fun f => equalFold key f.name).map
      fun f => f.put (f.read (f.get d) val) d).getD d := by
  unfold applyDurDirective
  cases durDirectives.find? fun f => equalFold key f.name <;> rfl

theorem applyDurDirectiveBytes_eq (d : Directives) (key val : Array UInt8) :
    applyDurDirectiveBytes d key val = applyDurDirective d key.toList val.toList := by
  have hempty : val.size = 0 ↔ val.toList = [] := by
    rw [← length_eq_zero_iff, Array.length_toList]
  simp only [applyDurDirectiveBytes, applyDurDirective_eq, eqFoldBytes_eq, durDirectives,
    find?_map_cons, parseDurBytes_eq, hempty, apply_ite (Option.getD · d),
    DurDirective.read]
  by_cases hval : val.toList = []
  · simp only [hval]
    rfl
  · simp only [hval]
    rfl

theorem applyCCDirectiveBytes_eq (d : Directives) (key val : Array UInt8) :
    applyCCDirectiveBytes d key val = applyCCDirective d (key.toList, val.toList) := by
  have hlist : (eqFoldBytes key (bytesOf "no-cache") ∧ 0 < val.size) ↔
      (equalFold key.toList (ascii "no-cache") ∧ val.toList ≠ []) := by
    rw [eqFoldBytes_eq, bytesOf, ← length_pos_iff, Array.length_toList]
  unfold applyCCDirectiveBytes applyCCDirective
  by_cases h : eqFoldBytes key (bytesOf "no-cache") = true ∧ 0 < val.size
  · rw [if_pos h]
    exact (if_pos (hlist.1 h)).symm
  · rw [if_neg h, applyBoolDirectiveBytes_eq, applyDurDirectiveBytes_eq]
    exact (if_neg (mt hlist.2 h)).symm

theorem parseCacheControlBytesFrom_eq (cc : Array UInt8) (i : Nat) (d : Directives) :
    parseCacheControlBytesFrom cc i d = (tokens (cc.toList.drop i)).foldl applyCCDirective d := by
  have hdrop (i : Nat) := drop_skipCCDelimitersBytes cc i
  fun_induction parseCacheControlBytesFrom cc i d with
  | case1 i d hi j hj hlt token ih =>
    have hne : cc.toList.drop j ≠ [] := by
      rw [drop_toList_cons hj]
      exact cons_ne_nil _ _
    rw [ih, tokens_step (hdrop i).symm hne, scanCCTokenBytes_eq, foldl_cons,
      applyCCDirectiveBytes_eq]
  | case2 i d hi j hj => rw [tokens_delimiters ((hdrop i).symm.trans (drop_toList_nil hj))]; rfl
  | case3 i d hi => rw [drop_toList_nil hi]; rfl

/-- The parsers of slices and strings give the same directives, for any bytes. -/
theorem parseCacheControlBytes_eq (cc : Array UInt8) :
    parseCacheControlBytes cc = parseCacheControl cc.toList :=
  parseCacheControlBytesFrom_eq cc 0 {}

/-- A list of fields, an open quote, a repeated directive, arguments that are no numbers. -/
example : parseCacheControlBytes
    (bytesOf "no-cache=\"a,b\", MAX-AGE=60,max-age=90s max-stale=, s-maxage=x, private=\"no-store") =
      { noCacheFields := ascii "a,b", maxAge := 90 * second, maxAgeSet := true
        maxStale := 2 ^ 63 - 1, maxStaleSet := true, isPrivate := true } := by
  rw [parseCacheControlBytes, parseCacheControlBytesFrom_eq]
  decide

end Bouine.Header
