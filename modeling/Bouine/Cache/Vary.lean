import Bouine.Lib.Text
import Bouine.Cache.CanonicalQuery

/-! # The variant key

`variantKeyCore` (`internal/cache/vary.go`) reduces each request header a stored response varies on
to a selecting value, writes `field=value;` for the fields in order and mixes the hash of that into
the primary key. Small inputs are written to the stack, others take `variantKeySlow`. The file says
when the text determines the values.
-/

namespace Bouine.Cache

open Lib
open List hiding splitOn

/-! ## The key

`pkg/api/key.go`: sixteen bytes, read as two words. -/

structure Key where
  hi : UInt64
  lo : UInt64
deriving DecidableEq

def Key.withVary (k : Key) (varyHash : UInt64) : Key := ⟨k.hi ^^^ varyHash, k.lo ^^^ varyHash⟩

/-! ## Selecting values -/

/-- What the standard library brings: the table of lower-case letters, and the weights that
`strconv.ParseFloat` reads, with their comparisons. -/
structure Stdlib (W : Type*) where
  lowerRune : Nat → Nat
  parseFloat : Bytes → Option W
  lt : W → W → Bool
  eq : W → W → Bool
  zero : W
  one : W
  minusOne : W

variable {W : Type*} (lib : Stdlib W)

def normalizeHeaderValue (v : Bytes) : Bytes :=
  let v := trimSpace v
  if byte ',' ∉ v then toLowerText lib.lowerRune v
  else
    let parts := (splitOn (byte ',') v).map fun p => trimSpace (toLowerText lib.lowerRune p)
    List.intercalate [byte ','] (sortStrings parts)

def aeRank (coding : Bytes) : Option Int :=
  if coding = ascii "br" then some 3
  else if coding = ascii "zstd" then some 2
  else if coding = ascii "gzip" then some 1
  else none

/-- The first `q` parameter decides; a malformed or negative weight is none. -/
def parseAEWeight (params : Bytes) : Option W :=
  let isWeight (p : Bytes) : Bool := [ascii "q=", ascii "Q="].contains (p.take 2)
  match ((pieces (byte ';') params).map trimSpace).find? isWeight with
  | none => none
  | some p =>
    match lib.parseFloat (trimSpace (p.drop 2)) with
    | some q => if lib.lt q lib.zero then none else some q
    | none => none

def weightOf (params : Bytes) : W :=
  if params = [] then lib.one else (parseAEWeight lib params).getD lib.one

def excluded (q : W) : Bool := lib.lt q lib.zero || lib.eq q lib.zero

/-- One round of `encodingBucket`: the best rank and weight so far. -/
def encodingStep (best : Int × W) (item : Bytes) : Int × W :=
  let (coding, params) := cutAt (byte ';') (trimSpace item)
  match aeRank (toLowerText lib.lowerRune (trimSpace coding)) with
  | none => best
  | some rank =>
    let q := weightOf lib params
    if excluded lib q then best
    else if lib.lt best.2 q || (lib.eq q best.2 && best.1 < rank) then (rank, q)
    else best

def encodingBucket (v : Bytes) : Bytes :=
  let best := (pieces (byte ',') (trimSpace v)).foldl (encodingStep lib) (-1, lib.minusOne)
  if best.1 = 3 then ascii "br"
  else if best.1 = 2 then ascii "zstd"
  else if best.1 = 1 then ascii "gzip"
  else ascii "identity"

def isTagChar (c : UInt8) : Bool :=
  (byte 'a' ≤ c && c ≤ byte 'z') || (byte 'A' ≤ c && c ≤ byte 'Z') || (byte '0' ≤ c && c ≤ byte '9')

def isLanguageTag (tag : Bytes) : Bool :=
  let segs := splitOn (byte '-') tag
  segs.all (fun seg => 1 ≤ seg.length && seg.length ≤ 8 && seg.all isTagChar) && segs.length ≤ 8

def langTagLess (a b : Bytes) : Bool := toLower a < toLower b

/-- One round of `langBucket`: the best tag and weight so far. -/
def langStep (best : Bytes × W) (item : Bytes) : Bytes × W :=
  let (tag, params) := cutAt (byte ';') (trimSpace item)
  let tag := trimSpace tag
  if !isLanguageTag tag then best
  else
    let q := weightOf lib params
    if excluded lib q then best
    else if lib.lt best.2 q then (tag, q)
    else if lib.eq q best.2 && equalFold tag best.1 then best
    else if lib.eq q best.2 && langTagLess tag best.1 then (tag, best.2)
    else best

def langBucket (v : Bytes) : Option Bytes :=
  let best := (pieces (byte ',') (trimSpace v)).foldl (langStep lib) ([], lib.minusOne)
  if best.1 = [] then none else some best.1

def varyHeaderValue (field value : Bytes) (policy : Option KeyPolicy) : Bytes :=
  if field = ascii "accept-encoding" ∧ verbatimEncoding policy = false then
    encodingBucket lib value
  else if field = ascii "accept-language" then
    match langBucket lib value with
    | some tag => toLowerText lib.lowerRune tag
    | none => normalizeHeaderValue lib value
  else normalizeHeaderValue lib value

/-! ## The text that is hashed -/

structure HeaderMap where
  get : Bytes → Bytes
  cookieAll : Bytes

/-- A request as one of the adapters shows it, and its map on the slow path. -/
structure VarySource where
  view : HeaderMap
  toMap : HeaderMap

def varyContainsStar (vary : Bytes) : Bool :=
  (splitOn (byte ',') vary).any fun f => trimSpace f == ascii "*"

def fieldValue (policy : Option KeyPolicy) (req : HeaderMap) (f : Bytes) : Bytes :=
  match policy with
  | some p =>
    if f = cookieValuesField ∧ hasCookieValues policy then cookieValuesValue p req.cookieAll
    else if f = cookiePresenceField ∧ hasCookiePresence policy then
      cookiePresenceValue p req.cookieAll
    else varyHeaderValue lib f (req.get f) policy
  | none => varyHeaderValue lib f (req.get f) policy

def fieldText (f val : Bytes) : Bytes := f ++ byte '=' :: (val ++ [byte ';'])

/-- The loop of `variantKeyCore` over its 256 bytes; `none` when they overflow. -/
def stackText (policy : Option KeyPolicy) (req : HeaderMap) : List Bytes → Bytes → Option Bytes
  | [], buf => some buf
  | f :: fs, buf =>
    if shouldExcludeHeader policy f then stackText policy req fs buf
    else
      let text := fieldText f (fieldValue lib policy req f)
      if 256 < buf.length + text.length then none else stackText policy req fs (buf ++ text)

def varyFields (vary : Bytes) : List Bytes :=
  sortStrings ((splitOn (byte ',') vary).map fun f => toLowerText lib.lowerRune (trimSpace f))

def varyFieldsSlow (vary : Bytes) : List Bytes :=
  sortStrings ((splitOn (byte ',') (toLowerText lib.lowerRune vary)).map trimSpace)

/-- What `variantKeySlow` writes; `none` if every field is excluded. -/
def slowText (policy : Option KeyPolicy) (vary : Bytes) (req : HeaderMap) : Option Bytes :=
  let fields := (varyFieldsSlow lib vary).filter (!shouldExcludeHeader policy ·)
  if fields = [] then none
  else some (fields.flatMap fun f => fieldText f (fieldValue lib policy req f))

def fallsBack (policy : Option KeyPolicy) (vary : Bytes) (src : VarySource) : Bool :=
  16 < (splitOn (byte ',') vary).length ||
    (stackText lib policy src.view (varyFields lib vary) []).isNone

/-- The text that is hashed; `none` where the primary key is returned as it is. -/
def variantText (policy : Option KeyPolicy) (vary : Bytes) (src : VarySource) : Option Bytes :=
  if vary = [] then none
  else if varyContainsStar vary then none
  else if 16 < (splitOn (byte ',') vary).length then slowText lib policy vary src.toMap
  else
    match stackText lib policy src.view (varyFields lib vary) [] with
    | none => slowText lib policy vary src.toMap
    -- nothing is written if every field is excluded
    | some buf => if buf = [] then none else some buf

def variantKeyCore (sum64 : Bytes → UInt64) (primary : Key) (policy : Option KeyPolicy)
    (vary : Bytes) (src : VarySource) : Key :=
  match variantText lib policy vary src with
  | none => primary
  | some text => primary.withVary (sum64 text)

/-! ## One text for both paths -/

def selectingFields (policy : Option KeyPolicy) (vary : Bytes) : List Bytes :=
  (varyFields lib vary).filter (!shouldExcludeHeader policy ·)

def selectingValue (policy : Option KeyPolicy) (vary : Bytes) (src : VarySource) (f : Bytes) :
    Bytes :=
  fieldValue lib policy (if fallsBack lib policy vary src then src.toMap else src.view) f

def fieldsText (val : Bytes → Bytes) (fs : List Bytes) : Bytes :=
  fs.flatMap fun f => fieldText f (val f)

theorem fieldText_ne_nil (f val : Bytes) : fieldText f val ≠ [] := by simp [fieldText]

variable {policy : Option KeyPolicy} {fs : List Bytes} {vary : Bytes}

theorem fieldsText_eq_nil {val : Bytes → Bytes} : fieldsText val fs = [] ↔ fs = [] := by
  cases fs <;> simp [fieldsText, fieldText_ne_nil]

theorem fieldsText_congr {val val' : Bytes → Bytes} (h : ∀ f ∈ fs, val f = val' f) :
    fieldsText val fs = fieldsText val' fs := by
  rw [fieldsText, fieldsText, flatMap_def, flatMap_def, map_congr_left fun f hf => by rw [h f hf]]

theorem stackText_some {req : HeaderMap} {buf out : Bytes}
    (h : stackText lib policy req fs buf = some out) :
    out = buf ++ fieldsText (fieldValue lib policy req)
        (fs.filter (!shouldExcludeHeader policy ·)) ∧
      ∀ f ∈ fs.filter (!shouldExcludeHeader policy ·),
        (fieldText f (fieldValue lib policy req f)).length ≤ 256 := by
  induction fs generalizing buf with
  | nil =>
    cases h
    simp [fieldsText]
  | cons f fs ih =>
    rw [stackText] at h
    cases hex : shouldExcludeHeader policy f with
    | true =>
      rw [hex] at h
      simpa [hex] using ih h
    | false =>
      simp only [hex, Bool.false_eq_true, if_false] at h
      split_ifs at h with hfits
      obtain ⟨hout, hrest⟩ := ih h
      simp only [hex, Bool.not_false, filter_cons_of_pos, forall_mem_cons]
      exact ⟨by simpa [fieldsText] using hout, by omega, hrest⟩

theorem varyFieldsSlow_eq (hascii : ∀ c ∈ vary, c < 0x80) :
    varyFieldsSlow lib vary = varyFields lib vary := by
  have hcomma : ∀ x, toLowerByte x = byte ',' ↔ x = byte ',' :=
    toLowerByte_eq_iff (by decide) (by decide)
  unfold varyFieldsSlow varyFields
  rw [toLowerText_ascii hascii, toLower, splitOn_map hcomma, map_map]
  congr 1
  refine map_congr_left fun f hf => ?_
  have hf : ∀ c ∈ trimSpace f, c < 0x80 := fun c hc =>
    hascii c (mem_of_mem_splitOn hf (mem_of_mem_trimSpace hc))
  rw [toLowerText_ascii hf]
  exact trimSpace_toLower f

theorem variantText_eq (src : VarySource) (hne : vary ≠ []) (hstar : varyContainsStar vary = false)
    (hascii : ∀ c ∈ vary, c < 0x80) :
    variantText lib policy vary src =
      if selectingFields lib policy vary = [] then none
      else some (fieldsText (selectingValue lib policy vary src)
        (selectingFields lib policy vary)) := by
  have hslow : slowText lib policy vary src.toMap =
      if selectingFields lib policy vary = [] then none
      else some (fieldsText (fieldValue lib policy src.toMap)
        (selectingFields lib policy vary)) := by
    simp only [slowText, varyFieldsSlow_eq lib hascii]
    rfl
  unfold variantText selectingValue fallsBack
  rw [if_neg hne, hstar, if_neg (by simp)]
  by_cases hmany : 16 < (splitOn (byte ',') vary).length
  · simp [hmany, hslow]
  · simp only [hmany]
    cases hstack : stackText lib policy src.view (varyFields lib vary) [] with
    | none => simpa using hslow
    | some buf =>
      obtain rfl : buf = fieldsText (fieldValue lib policy src.view)
          (selectingFields lib policy vary) := (stackText_some lib hstack).1
      simp [fieldsText_eq_nil]

theorem stackText_congr {req req' : HeaderMap}
    (hvalue : ∀ f ∈ fs, fieldValue lib policy req f = fieldValue lib policy req' f) (buf : Bytes) :
    stackText lib policy req fs buf = stackText lib policy req' fs buf := by
  induction fs generalizing buf with
  | nil => rfl
  | cons f fs ih =>
    have htail := ih fun g hg => hvalue g (mem_cons_of_mem f hg)
    rw [stackText, stackText, hvalue f mem_cons_self]
    simp [htail]

theorem variantText_congr {src src' : VarySource} (hascii : ∀ c ∈ vary, c < 0x80)
    (hview : ∀ f ∈ varyFields lib vary,
      fieldValue lib policy src.view f = fieldValue lib policy src'.view f)
    (hmap : ∀ f ∈ varyFields lib vary,
      fieldValue lib policy src.toMap f = fieldValue lib policy src'.toMap f) :
    variantText lib policy vary src = variantText lib policy vary src' := by
  have hslow : slowText lib policy vary src.toMap = slowText lib policy vary src'.toMap := by
    have htext := fieldsText_congr fun f hf =>
      hmap f (mem_of_mem_filter (p := (!shouldExcludeHeader policy ·)) hf)
    unfold fieldsText at htext
    simp [slowText, varyFieldsSlow_eq lib hascii, htext]
  unfold variantText
  rw [hslow, stackText_congr lib hview]

/-! ## When the text determines the values -/

theorem fieldsText_inj {val val' : Bytes → Bytes} (h : fieldsText val fs = fieldsText val' fs)
    (hsemi : ∀ f ∈ fs, (val f).count (byte ';') = (val' f).count (byte ';')) :
    ∀ f ∈ fs, val f = val' f := by
  induction fs with
  | nil => simp
  | cons f fs ih =>
    have hcons : ∀ v : Bytes → Bytes, fieldsText v (f :: fs) =
        f ++ (byte '=' :: (v f ++ byte ';' :: fieldsText v fs)) := by
      intro v
      simp [fieldsText, fieldText]
    rw [hcons, hcons, append_right_inj] at h
    obtain ⟨hval, hrest⟩ := append_sep_inj (cons.inj h).2 (hsemi f (by simp))
    have htail := ih hrest fun g hg => hsemi g (.tail _ hg)
    exact forall_mem_cons.2 ⟨hval, htail⟩

/-- Two requests with one text agree on every selecting value exactly when, field by field, these
have equally many semicolons. -/
theorem same_text_same_values_iff (policy : Option KeyPolicy) (vary : Bytes)
    (src src' : VarySource) (hne : vary ≠ []) (hstar : varyContainsStar vary = false)
    (hascii : ∀ c ∈ vary, c < 0x80)
    (h : variantText lib policy vary src = variantText lib policy vary src') :
    (∀ f ∈ selectingFields lib policy vary,
        selectingValue lib policy vary src f = selectingValue lib policy vary src' f) ↔
      ∀ f ∈ selectingFields lib policy vary,
        (selectingValue lib policy vary src f).count (byte ';') =
          (selectingValue lib policy vary src' f).count (byte ';') := by
  refine ⟨fun heq f hf => by rw [heq f hf], fun hsemi => ?_⟩
  rw [variantText_eq lib src hne hstar hascii, variantText_eq lib src' hne hstar hascii] at h
  split_ifs at h with hfields
  · simp [hfields]
  · exact fieldsText_inj (Option.some.inj h) hsemi

def twoHeaders (f v f' v' : Bytes) : VarySource :=
  let m : HeaderMap := ⟨fun k => if k = f then v else if k = f' then v' else [], []⟩
  ⟨m, m⟩

def asciiLib : Stdlib Int where
  lowerRune r := r
  parseFloat _ := none
  lt a b := decide (a < b)
  eq a b := decide (a = b)
  zero := 0
  one := 1
  minusOne := -1

/-- A semicolon in a value moves the border between two fields. -/
theorem semicolon_moves_between_fields :
    let src := twoHeaders (ascii "a") (ascii "1;b=2") (ascii "b") (ascii "3")
    let src' := twoHeaders (ascii "a") (ascii "1") (ascii "b") (ascii "2;b=3")
    variantText asciiLib none (ascii "a, b") src = some (ascii "a=1;b=2;b=3;") ∧
      variantText asciiLib none (ascii "a, b") src' = some (ascii "a=1;b=2;b=3;") ∧
      selectingValue asciiLib none (ascii "a, b") src (ascii "a") = ascii "1;b=2" ∧
      selectingValue asciiLib none (ascii "a, b") src' (ascii "a") = ascii "1" := by
  decide

/-- Two spellings of one language. -/
theorem respelled_language_same_value :
    selectingValue asciiLib none (ascii "Accept-Language")
        (twoHeaders (ascii "accept-language") (ascii " FR, de") [] []) (ascii "accept-language") =
      selectingValue asciiLib none (ascii "Accept-Language")
        (twoHeaders (ascii "accept-language") (ascii "de,fr") [] []) (ascii "accept-language") :=
  (same_text_same_values_iff asciiLib none (ascii "Accept-Language") _ _ (by decide)
    (by decide) (by decide) (by decide)).2 (by decide) _ (by decide)

end Bouine.Cache
