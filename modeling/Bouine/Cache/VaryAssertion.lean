import Bouine.Cache.VarySources

/-! # The assertion of a variant and its matcher

A stored variant carries the hash of the values that selected it. `BuildVaryKey`
(`internal/cache/key.go`) writes it, and the peer gates ask `varyKeyMatches` whether a request would
get the same. Both hash on the stack where they can, the matcher without a header map. The file
shows that the matcher decides equality with what the builder returns.
-/

namespace Bouine.Cache

open Lib Header Server Nat
open List hiding splitOn

/-! ## The code -/

inductive VaryAssertSrc where
  | map (m : Map)
  | raw (r : RawRequest)

namespace VaryAssertSrc

def getValue : VaryAssertSrc → Bytes → Bytes
  | map m, field => m.get field
  | raw r, field => (rawHeader r field).rdropWhile isOWS

def toMap : VaryAssertSrc → Map
  | map m => m
  | raw r => reqHeaderMapFromRaw r

/-- The lines of cookies that `cookieAll` does not skip. -/
def cookieLines (r : RawRequest) : List Bytes :=
  ((rawValues r Field.cookie).map (·.rdropWhile isOWS)).filter (· ≠ [])

def cookieAll : VaryAssertSrc → Bytes
  | map m => m.cookieAll
  | raw r =>
    if (cookieLines r).length ≤ 1 then (cookieLines r).head?.getD []
    else (cookieLines r).foldl (fun b v => (if 0 < b.length then b ++ ascii "; " else b) ++ v) []

def view (src : VaryAssertSrc) : HeaderMap := ⟨src.getValue, src.cookieAll⟩

end VaryAssertSrc

namespace VaryAssertion

def isASCIISpaceByte (c : UInt8) : Bool :=
  c == byte ' ' || c == 0x09 || c == 0x0A || c == 0x0B || c == 0x0C || c == 0x0D

/-- `none` where a byte is not ASCII. -/
def trimASCIISpace (s : Bytes) : Option Bytes :=
  if ∃ c ∈ s, 0x80 ≤ c then none
  else some ((s.dropWhile isASCIISpaceByte).rdropWhile isASCIISpaceByte)

section

variable {W : Type*} (lib : Stdlib W) (sum64 : Bytes → UInt64) (policy : Option KeyPolicy)

/-- The second loop of `varyAssertionHash`. The name is written first; that of an excluded field is
written over. -/
def hashFields (req : HeaderMap) : List Bytes → Buf → Option Buf
  | [], b => some b
  | f :: fs, b =>
    match trimASCIISpace f with
    | none => none
    | some raw =>
      if b.mem.length < b.n + raw.length + 2 then none
      else
        let named := b.append (toLower raw)
        if shouldExcludeHeader policy (toLower raw) then hashFields req fs (named.shrink raw.length)
        else
          let val := assertedValue lib policy req (toLower raw)
          if b.mem.length < b.n + raw.length + 1 + val.length + 1 then none
          else hashFields req fs (((named.appendByte (byte '=')).append val).appendByte (byte ';'))

def varyAssertionHash (vary : Bytes) (src : VaryAssertSrc) : Option UInt64 :=
  if 16 < (splitOn (byte ',') vary).length then none
  else
    (hashFields lib policy src.view (sortStrings (splitOn (byte ',') vary)) (.make 256)).map
      fun b => sum64 b.contents

def buildVaryKeyInto (b : Buf) (fields : List Bytes) (reqHeader : Map) : Buf :=
  fields.foldl (fun b f =>
    let f := trimSpace (toLowerText lib.lowerRune f)
    if shouldExcludeHeader policy f then b
    else
      (((b.append f).appendByte (byte '=')).append
        (assertedValue lib policy (mapView reqHeader) f)).appendByte (byte ';')) b

def buildVaryKeySlow (vary : Bytes) (reqHeader : Map) : Bytes :=
  let fields := sortStrings (splitOn (byte ',') vary)
  let stack := buildVaryKeyInto lib policy (.make 256) fields reqHeader
  if stack.n ≤ 256 then formatHex (sum64 stack.contents)
  else formatHex (sum64 (buildVaryKeyInto lib policy (.make stack.n) fields reqHeader).mem)

/-- `BuildVaryKey` with its two paths. -/
def buildVaryKey (vary : Bytes) (reqHeader : Map) : Bytes :=
  if vary = [] ∨ vary = ascii "*" then vary
  else
    match varyAssertionHash lib sum64 policy vary (.map reqHeader) with
    | some h => formatHex h
    | none => buildVaryKeySlow lib sum64 policy vary reqHeader

def varyKeyMatches (vary : Bytes) (src : VaryAssertSrc) (want : Bytes) : Bool :=
  if vary = [] ∨ vary = ascii "*" then vary == want
  else
    match varyAssertionHash lib sum64 policy vary src with
    | none => buildVaryKeySlow lib sum64 policy vary src.toMap == want
    | some h => formatHex h == want

end

/-! ## The lines read as the map -/

theorem joinCookies_append (b w : Bytes) (ws : List Bytes) :
    joinCookies ((b ++ ascii "; " ++ w) :: ws) = joinCookies (b :: w :: ws) := by
  cases ws with
  | nil => simp [joinCookies]
  | cons w' ws => simp [joinCookies_cons_cons, ascii]

theorem foldl_joinCookies {b : Bytes} (hb : b ≠ []) (ws : List Bytes) :
    ws.foldl (fun b v => (if 0 < b.length then b ++ ascii "; " else b) ++ v) b =
      joinCookies (b :: ws) := by
  induction ws generalizing b with
  | nil => simp [joinCookies]
  | cons w ws ih =>
    rw [foldl_cons, if_pos (length_pos_iff.2 hb), ih (by simp [hb]), joinCookies_append]

theorem cookieAll_raw (r : RawRequest) :
    (VaryAssertSrc.raw r).cookieAll = (reqHeaderMapFromRaw r).cookieAll := by
  have hsome : ∀ w ∈ VaryAssertSrc.cookieLines r, w ≠ [] := ne_nil_of_mem_filter
  have hall : (VaryAssertSrc.cookieLines r).filter (· ≠ []) = VaryAssertSrc.cookieLines r :=
    filter_eq_self.2 fun w hw => decide_eq_true (hsome w hw)
  rw [cookieAll_reqHeaderMapFromRaw]
  show (if _ then _ else _) = joinCookies (VaryAssertSrc.cookieLines r)
  split_ifs with hone
  · rw [← joinCookies_of_length_le_one (not_lt.2 hone), hall]
  · cases hlines : VaryAssertSrc.cookieLines r with
    | nil => rfl
    | cons w ws =>
      exact foldl_joinCookies (hsome w (hlines ▸ (.head _))) ws

theorem view_eq (src : VaryAssertSrc) : src.view = mapView src.toMap := by
  cases src with
  | map m => rfl
  | raw r =>
    unfold VaryAssertSrc.view mapView
    rw [cookieAll_raw]
    congr 1
    funext field
    exact (get_reqHeaderMapFromRaw r field).symm

/-! ## One text -/

theorem isASCIISpaceByte_iff (c : UInt8) : isASCIISpaceByte c ↔ [c] ∈ spaces := by
  have hspaces : [c] ∈ spaces ↔ c ∈ [0x09, 0x0A, 0x0B, 0x0C, 0x0D, 0x20] := by simp [spaces]
  rw [hspaces, isASCIISpaceByte]
  simp only [Bool.or_eq_true, beq_iff_eq, mem_cons]
  tauto

theorem toLower_of_trimASCIISpace (lowerRune : Nat → Nat) {s raw : Bytes}
    (h : trimASCIISpace s = some raw) : toLower raw = trimSpace (toLowerText lowerRune s) := by
  unfold trimASCIISpace at h
  split_ifs at h with hascii
  have hs : ∀ c ∈ s, c < 0x80 := fun c hc => by
    by_contra hlt
    exact hascii ⟨c, hc, UInt8.not_lt.1 hlt⟩
  cases h
  rw [toLowerText_ascii hs, trimSpace_toLower, trimSpace_ascii isASCIISpaceByte_iff hs]

section

variable {W : Type*} (lib : Stdlib W) (sum64 : Bytes → UInt64) (policy : Option KeyPolicy)

def listText (req : HeaderMap) (fields : List Bytes) : Bytes :=
  ((fields.map fun f => trimSpace (toLowerText lib.lowerRune f)).filter
    (!shouldExcludeHeader policy ·)).flatMap fun f => fieldText f (assertedValue lib policy req f)

theorem listText_cons (req : HeaderMap) (f : Bytes) (fs : List Bytes) :
    listText lib policy req (f :: fs) =
      (if shouldExcludeHeader policy (trimSpace (toLowerText lib.lowerRune f)) then []
        else fieldText (trimSpace (toLowerText lib.lowerRune f))
          (assertedValue lib policy req (trimSpace (toLowerText lib.lowerRune f)))) ++
        listText lib policy req fs := by
  cases hex : shouldExcludeHeader policy (trimSpace (toLowerText lib.lowerRune f)) <;>
    simp [listText, hex]

variable {out : Bytes}

theorem represents_fieldText {b : Buf} {size : Nat} (h : b.Represents size out)
    (f val : Bytes) :
    ((((b.append f).appendByte (byte '=')).append val).appendByte (byte ';')).Represents size
      (out ++ fieldText f val) := by
  have := (((h.append f).appendByte (byte '=')).append val).appendByte (byte ';')
  simpa [fieldText] using this

theorem buildVaryKeyInto_represents {b : Buf} {size : Nat} (h : b.Represents size out)
    (fields : List Bytes) (m : Map) :
    (buildVaryKeyInto lib policy b fields m).Represents size
      (out ++ listText lib policy (mapView m) fields) := by
  induction fields generalizing b out with
  | nil => simpa [buildVaryKeyInto, listText] using h
  | cons f fs ih =>
    rw [listText_cons, ← append_assoc]
    unfold buildVaryKeyInto
    rw [foldl_cons]
    dsimp only
    split_ifs with hex
    · rw [append_nil]
      exact ih h
    · exact ih (represents_fieldText h _ _)

theorem buildVaryKeySlow_eq (vary : Bytes) (m : Map) :
    buildVaryKeySlow lib sum64 policy vary m =
      formatHex (sum64 (assertionText lib vary (mapView m) policy)) := by
  have hpass (size : Nat) := buildVaryKeyInto_represents lib policy (Buf.represents_make size)
    (sortStrings (splitOn (byte ',') vary)) m
  have hstack := hpass 256
  unfold buildVaryKeySlow
  dsimp only
  split_ifs with hfits
  · rw [hstack.contents_eq (hstack.n_eq ▸ hfits)]
    rfl
  · have hheap := hpass (buildVaryKeyInto lib policy (.make 256)
      (sortStrings (splitOn (byte ',') vary)) m).n
    have hmem := hheap.take_mem
    rw [hheap.n_eq, ← hstack.n_eq, take_of_length_le (le_of_eq hheap.length_mem),
      take_of_length_le (le_of_eq hstack.n_eq.symm)] at hmem
    rw [hmem]
    rfl

theorem hashFields_represents {req : HeaderMap} {fs : List Bytes} {b b' : Buf}
    (h : b.Represents 256 out) (hfits : out.length ≤ 256)
    (hash : hashFields lib policy req fs b = some b') :
    b'.Represents 256 (out ++ listText lib policy req fs) ∧
      (out ++ listText lib policy req fs).length ≤ 256 := by
  induction fs generalizing b out with
  | nil =>
    cases hash
    simpa [listText] using And.intro h hfits
  | cons f fs ih =>
    rw [hashFields] at hash
    cases hraw : trimASCIISpace f with
    | none => simp [hraw] at hash
    | some raw =>
      have hname := toLower_of_trimASCIISpace lib.lowerRune hraw
      have hlen : (toLower raw).length = raw.length := by simp [toLower]
      rw [listText_cons, ← hname, ← append_assoc]
      simp only [hraw] at hash
      split_ifs at hash ⊢ with hroom hex hval
      · -- the name is taken back
        have hnamed := (h.append (toLower raw)).shrink
          (by rw [length_append]; have := h.n_eq; have := h.length_mem; omega) raw.length
        rw [length_append, hlen, Nat.add_sub_cancel, take_left] at hnamed
        rw [append_nil]
        exact ih hnamed hfits hash
      · refine ih (represents_fieldText h _ _) ?_ hash
        have := h.n_eq
        have := h.length_mem
        simp only [fieldText, length_append, length_cons, length_nil]
        omega

theorem varyAssertionHash_eq {vary : Bytes} {src : VaryAssertSrc} {hash : UInt64}
    (h : varyAssertionHash lib sum64 policy vary src = some hash) :
    hash = sum64 (assertionText lib vary (mapView src.toMap) policy) := by
  unfold varyAssertionHash at h
  split_ifs at h
  obtain ⟨b, hb, rfl⟩ := Option.map_eq_some_iff.1 h
  obtain ⟨hrep, hfits⟩ :=
    hashFields_represents lib policy (Buf.represents_make 256) (zero_le _) hb
  rw [hrep.contents_eq hfits, view_eq]
  rfl

theorem buildVaryKey_eq (vary : Bytes) (m : Map) :
    buildVaryKey lib sum64 policy vary m = Cache.buildVaryKey lib sum64 vary m policy := by
  unfold buildVaryKey Cache.buildVaryKey
  split_ifs
  · rfl
  · cases hhash : varyAssertionHash lib sum64 policy vary (.map m) with
    | none => exact buildVaryKeySlow_eq lib sum64 policy vary m
    | some h =>
      obtain rfl := varyAssertionHash_eq lib sum64 policy hhash
      rfl

/-- The matcher accepts exactly the assertion that the builder returns for the request. -/
theorem vary_key_matches_iff (vary : Bytes) (src : VaryAssertSrc) (want : Bytes) :
    varyKeyMatches lib sum64 policy vary src want = true ↔
      want = buildVaryKey lib sum64 policy vary src.toMap := by
  rw [buildVaryKey_eq, eq_comm (a := want)]
  unfold varyKeyMatches Cache.buildVaryKey
  split_ifs
  · exact beq_iff_eq
  · cases hhash : varyAssertionHash lib sum64 policy vary src with
    | none =>
      rw [beq_iff_eq, buildVaryKeySlow_eq]
    | some h =>
      obtain rfl := varyAssertionHash_eq lib sum64 policy hhash
      exact beq_iff_eq

end

end VaryAssertion

end Bouine.Cache
