import Bouine.Cache.FastPath
import Bouine.Cache.VaryUnion

/-! # The sources of a variant key

`variantKeyCore` (`internal/cache/vary.go`) reads a request through one of three adapters: a header
map, fasthttp's header, or the lines of the fast path. Where its stack buffers are too small it
makes a map of the request and starts over in `variantKeySlow`. The file says when adapter and path
do not show in the key.
-/

namespace Bouine.Cache

open Lib Header Server
open List hiding splitOn

/-! ## The code -/

def variantKeySlow {W : Type*} (lib : Stdlib W) (sum64 : Bytes → UInt64) (primary : Key)
    (policy : Option KeyPolicy) (vary : Bytes) (reqHeader : HeaderMap) : Key :=
  match slowText lib policy vary reqHeader with
  | none => primary
  | some text => primary.withVary (sum64 text)

/-- fasthttp's request header, as it is read: `Peek` and `PeekAll` on canonical names, and the lines
that `All` lists. Some headers have fields of their own there, and cookies are lines until they are
collected. -/
structure FastHeader where
  peek : Bytes → Bytes
  peekAll : Bytes → List Bytes
  all : List Line

namespace FastHeader

def presenceCookieValue (h : FastHeader) : Bytes :=
  let lines := h.peekAll Field.cookie
  if 1 < lines.length then List.intercalate (ascii "; ") (lines.filter (· ≠ []))
  else h.peek Field.cookie

def headerFromFastHTTPReqHeader (h : FastHeader) : Map := Map.sortEntries ⟨h.all⟩

def varySrc (h : FastHeader) : VarySource :=
  ⟨⟨fun key => h.peek (canonicalHeaderKey key), h.presenceCookieValue⟩,
    mapView h.headerFromFastHTTPReqHeader⟩

def ofLines (ls : List Line) : FastHeader where
  peek key := ((valuesOf key ls).head?).getD []
  peekAll key := valuesOf key ls
  all := ls

end FastHeader

/-- `parseHeaders` strips the white space in front of a value. -/
def Stripped (req : RawRequest) : Prop := ∀ l ∈ req.headers, ∀ c ∈ l.value.head?, isOWS c = false

variable {req : RawRequest} {ws : List Bytes}

/-! ## What a field contributes -/

def cookieEntry (pair : Bytes) : Bytes × Bytes :=
  (trimCookieOWS (cutAt (byte '=') pair).1, trimCookieOWS (cutAt (byte '=') pair).2)

def cookieEntries (cookies : Bytes) : List (Bytes × Bytes) :=
  (splitOn (byte ';') cookies).map cookieEntry

structure CookiesAlike (a b : Bytes) : Prop where
  empty : a = [] ↔ b = []
  entries : cookieEntries a = cookieEntries b

structure Alike (a b : HeaderMap) : Prop where
  value : ∀ f, trimSpace (a.get f) = trimSpace (b.get f)
  cookies : CookiesAlike a.cookieAll b.cookieAll

def indexOfEntry (listed : List Bytes) (e : Bytes × Bytes) : Option Nat :=
  if e.1 = [] then none else listed.findIdx? (equalFold e.1)

theorem cookiePresenceValue_congr (p : KeyPolicy) {a b : Bytes} (h : CookiesAlike a b) :
    cookiePresenceValue p a = cookiePresenceValue p b := by
  have hvalue (v : Bytes) : cookiePresenceValue p v =
      if p.cookiePresence = [] ∨ v = [] then []
      else
        (cookieEntries v).foldl (fun bits e =>
          (indexOfEntry p.cookiePresence e).elim bits (bits.set · (byte '1')))
          (replicate p.cookiePresence.length (byte '0')) := by
    rw [cookieEntries, foldl_map, cookiePresenceValue]
    congr 2
    funext bits pair
    change _ = (listedIndex p.cookiePresence pair).elim _ _
    cases listedIndex p.cookiePresence pair <;> rfl
  rw [hvalue, hvalue, h.entries]
  simp [h.empty]

theorem cookieValuesValue_congr (p : KeyPolicy) {a b : Bytes} (h : CookiesAlike a b) :
    cookieValuesValue p a = cookieValuesValue p b := by
  have hfold (v : Bytes) : cookieVals p v =
      (cookieEntries v).foldl (fun vals e =>
        (indexOfEntry p.cookieValues e).elim vals (vals.set · e.2))
        (replicate p.cookieValues.length []) := by
    rw [cookieEntries, foldl_map, cookieVals]
    congr 1
    funext vals pair
    change _ = (listedIndex p.cookieValues pair).elim _ _
    cases listedIndex p.cookieValues pair <;> rfl
  unfold cookieValuesValue
  rw [hfold, hfold, h.entries]
  simp [h.empty]

section

variable {W : Type*} (lib : Stdlib W)

theorem varyHeaderValue_congr (f : Bytes) (policy : Option KeyPolicy) {v v' : Bytes}
    (h : trimSpace v = trimSpace v') :
    varyHeaderValue lib f v policy = varyHeaderValue lib f v' policy := by
  have hencoding : encodingBucket lib v = encodingBucket lib v' := by
    unfold encodingBucket
    rw [h]
  have hlanguage : langBucket lib v = langBucket lib v' := by
    unfold langBucket
    rw [h]
  have hnormal : normalizeHeaderValue lib v = normalizeHeaderValue lib v' := by
    unfold normalizeHeaderValue
    rw [h]
  rw [varyHeaderValue, varyHeaderValue, hencoding, hlanguage, hnormal]

theorem fieldValue_congr (policy : Option KeyPolicy) {a b : HeaderMap} (h : Alike a b) (f : Bytes) :
    fieldValue lib policy a f = fieldValue lib policy b f := by
  unfold fieldValue
  simp [varyHeaderValue_congr lib f policy (h.value f), cookiePresenceValue_congr _ h.cookies,
    cookieValuesValue_congr _ h.cookies]

end

/-! ## Cookie lines -/

theorem trimOWS_cons {c : UInt8} (hc : isOWS c) (s : Bytes) : trimOWS (c :: s) = trimOWS s := by
  rw [trimOWS, dropWhile_cons_of_pos hc]
  rfl

theorem trimOWS_concat {c : UInt8} (hc : isOWS c) (s : Bytes) :
    trimOWS (s ++ [c]) = trimOWS s := by
  rw [trimOWS, trimOWS, dropWhile_append]
  split_ifs with hempty
  · rw [isEmpty_iff.1 hempty, dropWhile_cons_of_pos hc]
    rfl
  · rw [reverse_append, reverse_singleton, singleton_append, dropWhile_cons_of_pos hc]

section

variable {c : UInt8} (hc : isOWS c = true)

include hc

theorem ows_ne : c ≠ byte '=' ∧ c ≠ byte ';' :=
  forall_byte (P := fun c => isOWS c = true → c ≠ byte '=' ∧ c ≠ byte ';') (by decide +kernel) c hc

theorem cookieEntry_cons (pair : Bytes) : cookieEntry (c :: pair) = cookieEntry pair := by
  have hne : byte '=' ∉ [c] := by simpa using Ne.symm (ows_ne hc).1
  have hcut := cutAt_append_of_notMem hne pair
  rw [singleton_append] at hcut
  rw [cookieEntry, hcut]
  exact Prod.ext (trimOWS_cons hc _) rfl

theorem cookieEntry_concat (pair : Bytes) : cookieEntry (pair ++ [c]) = cookieEntry pair := by
  have hne : byte '=' ∉ [c] := by simpa using Ne.symm (ows_ne hc).1
  by_cases hmem : byte '=' ∈ pair
  · obtain ⟨k, v, rfl, hk⟩ := eq_append_cons_of_mem hmem
    rw [cookieEntry, cookieEntry, append_assoc, cons_append, cutAt_append hk, cutAt_append hk]
    exact Prod.ext rfl (trimOWS_concat hc v)
  · have hshort := cutAt_append_of_notMem hmem []
    have hlong := cutAt_append_of_notMem hne []
    rw [append_nil] at hshort hlong
    rw [cookieEntry, cookieEntry, cutAt_append_of_notMem hmem, hshort, hlong]
    refine Prod.ext ?_ rfl
    show trimOWS (pair ++ ([c] ++ [])) = trimOWS (pair ++ [])
    rw [append_nil, append_nil]
    exact trimOWS_concat hc pair

theorem cookieEntries_cons (s : Bytes) : cookieEntries (c :: s) = cookieEntries s := by
  obtain ⟨g, gs, hs, hcs⟩ := splitOn_cons_of_ne (ows_ne hc).2 s
  rw [cookieEntries, cookieEntries, hs, hcs, map_cons, map_cons, cookieEntry_cons hc]

theorem splitOn_concat (s : Bytes) : ∃ init last, splitOn (byte ';') s = init ++ [last] ∧
    splitOn (byte ';') (s ++ [c]) = init ++ [last ++ [c]] := by
  have hne := Ne.symm (ows_ne hc).2
  by_cases hmem : byte ';' ∈ s
  · obtain ⟨b, a, hrev, hb⟩ := eq_append_cons_of_mem (mem_reverse.2 hmem)
    have hs : s = a.reverse ++ byte ';' :: b.reverse := by
      rw [← reverse_reverse s, hrev]
      simp
    have hb : byte ';' ∉ b.reverse := fun h => hb (mem_reverse.1 h)
    have hlast : byte ';' ∉ b.reverse ++ [c] := by
      simpa using ⟨by simpa using hb, hne⟩
    refine ⟨splitOn (byte ';') a.reverse, b.reverse, ?_, ?_⟩
    · rw [hs, splitOn_append_sep, splitOn_of_notMem hb]
    · rw [hs, append_assoc, cons_append, splitOn_append_sep, splitOn_of_notMem hlast]
  · have hlast : byte ';' ∉ s ++ [c] := by simpa using ⟨hmem, hne⟩
    exact ⟨[], s, splitOn_of_notMem hmem, splitOn_of_notMem hlast⟩

theorem cookieEntries_concat (s : Bytes) : cookieEntries (s ++ [c]) = cookieEntries s := by
  obtain ⟨init, last, hs, hsc⟩ := splitOn_concat hc s
  rw [cookieEntries, cookieEntries, hs, hsc, map_append, map_append, map_singleton,
    map_singleton, cookieEntry_concat hc]

end

theorem cookieEntries_rdropWhile (s : Bytes) :
    cookieEntries (s.rdropWhile isOWS) = cookieEntries s := by
  induction s using reverseRecOn with
  | nil => rfl
  | append_singleton s c ih =>
    by_cases hc : isOWS c = true
    · rw [rdropWhile_concat_pos _ _ _ hc, ih, cookieEntries_concat hc]
    · rw [rdropWhile_concat_neg _ _ _ hc]

def joinCookies (ws : List Bytes) : Bytes := List.intercalate (ascii "; ") ws

theorem joinCookies_cons_cons (w w' : Bytes) (ws : List Bytes) :
    joinCookies (w :: w' :: ws) = w ++ byte ';' :: byte ' ' :: joinCookies (w' :: ws) := by
  simp [joinCookies, ascii]

theorem cookieEntries_joinCookies (hne : ws ≠ []) :
    cookieEntries (joinCookies ws) = ws.flatMap cookieEntries := by
  induction ws with
  | nil => cases hne rfl
  | cons w ws ih =>
    cases ws with
    | nil => simp [joinCookies]
    | cons w' ws =>
      rw [joinCookies_cons_cons, flatMap_cons, ← ih (cons_ne_nil _ _),
        ← cookieEntries_cons (c := byte ' ') (by decide) (joinCookies (w' :: ws))]
      unfold cookieEntries
      rw [splitOn_append_sep, map_append]

theorem joinCookies_eq_nil_iff (h : ∀ w ∈ ws, w ≠ []) : joinCookies ws = [] ↔ ws = [] := by
  cases ws with
  | nil => simp [joinCookies]
  | cons w ws =>
    cases ws with
    | nil => simpa [joinCookies] using h
    | cons w' ws => simp [joinCookies_cons_cons]

theorem ne_nil_of_mem_filter : ∀ w ∈ ws.filter (· ≠ []), w ≠ [] :=
  fun _ hw => of_decide_eq_true (mem_filter.1 hw).2

theorem cookiesAlike_rdropWhile {vs : List Bytes} (h : ∀ v ∈ vs, ∀ c ∈ v.head?, isOWS c = false) :
    CookiesAlike (joinCookies (vs.filter (· ≠ [])))
      (joinCookies ((vs.map (·.rdropWhile isOWS)).filter (· ≠ []))) := by
  have hkeep : ∀ v ∈ vs, v.rdropWhile isOWS = [] ↔ v = [] := by
    intro v hv
    cases v with
    | nil => simp
    | cons c v =>
      simp [h _ hv c rfl]
  have hfilter : (vs.map (·.rdropWhile isOWS)).filter (· ≠ []) =
      (vs.filter (· ≠ [])).map (·.rdropWhile isOWS) := by
    rw [filter_map]
    congr 1
    refine filter_congr fun v hv => ?_
    simp [hkeep v hv]
  have hsome : ∀ w ∈ (vs.filter (· ≠ [])).map (·.rdropWhile isOWS), w ≠ [] := by
    rw [← hfilter]
    exact ne_nil_of_mem_filter
  rw [hfilter]
  refine ⟨?_, ?_⟩
  · rw [joinCookies_eq_nil_iff hsome, joinCookies_eq_nil_iff ne_nil_of_mem_filter, map_eq_nil_iff]
  · cases hlines : vs.filter (· ≠ []) with
    | nil => rfl
    | cons w ws =>
      rw [cookieEntries_joinCookies (cons_ne_nil _ _), map_cons,
        cookieEntries_joinCookies (cons_ne_nil _ _), ← map_cons, flatMap_map]
      simp [cookieEntries_rdropWhile]

/-! ## The lines of a request -/

def canonicalLines (req : RawRequest) : List Line :=
  req.headers.map fun l => ⟨canonicalHeaderKey l.key, l.value.rdropWhile isOWS⟩

def rawValues (req : RawRequest) (key : Bytes) : List Bytes :=
  (req.headers.filter fun l => equalFold l.key key).map RawHeader.value

theorem valuesOf_canonicalLines (req : RawRequest) (key : Bytes) :
    valuesOf (canonicalHeaderKey key) (canonicalLines req) =
      (rawValues req key).map (·.rdropWhile isOWS) := by
  rw [valuesOf, canonicalLines, filter_map, map_map, rawValues, map_map]
  congr 1
  refine filter_congr fun l _ => ?_
  simp [canonicalHeaderKey_eq_iff]

theorem rawHeader_eq (req : RawRequest) (key : Bytes) :
    rawHeader req key = ((rawValues req key).head?).getD [] := by
  rw [rawHeader, rawValues, head?_map, head?_filter]

theorem cookieValue_eq (req : RawRequest) :
    cookieValue req = joinCookies ((rawValues req Field.cookie).filter (· ≠ [])) := by
  rw [cookieValue, rawValues, filter_map, filter_filter]
  congr 3
  funext l
  simp [Bool.and_comm]

theorem get_reqHeaderMapFromRaw (req : RawRequest) (key : Bytes) :
    (reqHeaderMapFromRaw req).get key = (rawHeader req key).rdropWhile isOWS := by
  have hcanonical : ∀ e ∈ (reqHeaderMapFromRaw req).entries, isCanonical e.name = true := by
    intro e he
    obtain ⟨l, -, rfl⟩ := mem_map.1 ((mem_insertionSort _).1 he)
    exact isCanonical_canonicalHeaderKey l.key
  rw [Map.get_of_canonical hcanonical, reqHeaderMapFromRaw, Map.valuesOf_sortEntries]
  show ((valuesOf (canonicalHeaderKey key) (canonicalLines req)).head?).getD [] = _
  rw [valuesOf_canonicalLines, rawHeader_eq, head?_map]
  cases (rawValues req key).head? <;> rfl

theorem cookieAll_reqHeaderMapFromRaw (req : RawRequest) :
    (reqHeaderMapFromRaw req).cookieAll =
      joinCookies (((rawValues req Field.cookie).map (·.rdropWhile isOWS)).filter (· ≠ [])) := by
  rw [Map.cookieAll, reqHeaderMapFromRaw, Map.valuesOf_sortEntries,
    ← valuesOf_canonicalLines]
  rfl

theorem alike_rawVarySrc (h : Stripped req) :
    Alike (rawVarySrc req).view (mapView (reqHeaderMapFromRaw req)) where
  value f := by
    show trimSpace (rawHeader req f) = trimSpace ((reqHeaderMapFromRaw req).get f)
    rw [get_reqHeaderMapFromRaw, trimSpace_rdropWhile_ows]
  cookies := by
    show CookiesAlike (cookieValue req) (reqHeaderMapFromRaw req).cookieAll
    rw [cookieValue_eq, cookieAll_reqHeaderMapFromRaw]
    refine cookiesAlike_rdropWhile fun v hv => ?_
    obtain ⟨l, hl, rfl⟩ := mem_map.1 hv
    exact h l (mem_filter.1 hl).1

theorem joinCookies_of_length_le_one {vs : List Bytes} (h : ¬ 1 < vs.length) :
    joinCookies (vs.filter (· ≠ [])) = vs.head?.getD [] := by
  match vs, h with
  | [], _ => rfl
  | [v], _ => by_cases hv : v = [] <;> simp [joinCookies, hv]
  | _ :: _ :: _, h => exact absurd (by simp) h

theorem varySrc_ofLines (req : RawRequest) :
    (FastHeader.ofLines (canonicalLines req)).varySrc = mapVarySrc (reqHeaderMapFromRaw req) := by
  have hget (f : Bytes) : (FastHeader.ofLines (canonicalLines req)).peek (canonicalHeaderKey f) =
      (reqHeaderMapFromRaw req).get f := by
    show ((valuesOf (canonicalHeaderKey f) (canonicalLines req)).head?).getD [] = _
    rw [get_reqHeaderMapFromRaw, valuesOf_canonicalLines, rawHeader_eq, head?_map]
    cases (rawValues req f).head? <;> rfl
  have hcookies : (FastHeader.ofLines (canonicalLines req)).presenceCookieValue =
      (reqHeaderMapFromRaw req).cookieAll := by
    have hlines := valuesOf_canonicalLines req Field.cookie
    rw [cookieAll_reqHeaderMapFromRaw, ← hlines]
    show (if 1 < (valuesOf Field.cookie (canonicalLines req)).length then _ else _) = _
    split_ifs with hmany
    · rfl
    · exact (joinCookies_of_length_le_one hmany).symm
  unfold FastHeader.varySrc mapVarySrc mapView
  simp only [hget, hcookies]
  rfl

/-! ## The two paths -/

section

variable {W : Type*} {lib : Stdlib W} (table : LowerTable lib.lowerRune) (policy : Option KeyPolicy)

def Nameable (lib : Stdlib W) (f : Bytes) : Prop :=
  ∃ name, byte ',' ∉ name ∧ trimSpace name ≠ ascii "*" ∧ toLowerText lib.lowerRune (trimSpace name) = f

theorem nameable_of_mem {vary f : Bytes} (hstar : varyContainsStar vary = false)
    (hf : f ∈ varyFields lib vary) : Nameable lib f := by
  obtain ⟨name, hname, rfl⟩ := mem_map.1 ((mem_insertionSort _).1 hf)
  refine ⟨name, notMem_of_mem_splitOn hname, ?_, rfl⟩
  simpa using any_eq_false.1 hstar name hname

def listOf (name : Bytes) : Bytes := name ++ [byte ' ']

variable {src : VarySource} {m : HeaderMap} {name : Bytes} {vary : Bytes}

theorem splitOn_listOf (hname : byte ',' ∉ name) :
    splitOn (byte ',') (listOf name) = [listOf name] := by
  refine splitOn_of_notMem ?_
  rw [listOf, mem_append]
  exact not_or.2 ⟨hname, by decide⟩

theorem trimSpace_listOf (name : Bytes) : trimSpace (listOf name) = trimSpace name :=
  trimSpace_append_space (by decide) name

theorem varyContainsStar_listOf (hname : byte ',' ∉ name) (hstar : trimSpace name ≠ ascii "*") :
    varyContainsStar (listOf name) = false := by
  rw [varyContainsStar, splitOn_listOf hname]
  simpa [trimSpace_listOf] using hstar

theorem varyFields_listOf (hname : byte ',' ∉ name) :
    varyFields lib (listOf name) = [toLowerText lib.lowerRune (trimSpace name)] := by
  rw [varyFields, splitOn_listOf hname, map_singleton, trimSpace_listOf]
  rfl

/-- The source shows the value of the map, as far as it is looked at: a value too long for the
buffer is read again from the map the source turns into. -/
structure Shows (lib : Stdlib W) (src : VarySource) (m : HeaderMap) (f : Bytes) : Prop where
  toMap : fieldValue lib policy src.toMap f = fieldValue lib policy m f
  view : (fieldText f (fieldValue lib policy src.view f)).length ≤ 256 →
    fieldValue lib policy src.view f = fieldValue lib policy m f

include table

theorem varyFieldsSlow_eq_varyFields (vary : Bytes) : varyFieldsSlow lib vary = varyFields lib vary := by
  rw [varyFieldsSlow, splitOn_toLowerText table, map_map]
  congr 1
  exact map_congr_left fun f _ => trimSpace_toLowerText table f

theorem slowText_eq (vary : Bytes) (m : HeaderMap) :
    slowText lib policy vary m =
      if selectingFields lib policy vary = [] then none
      else some (fieldsText (fieldValue lib policy m) (selectingFields lib policy vary)) := by
  simp only [slowText, varyFieldsSlow_eq_varyFields table]
  rfl

theorem slowText_toMap (h : ∀ f ∈ selectingFields lib policy vary, Shows policy lib src m f) :
    slowText lib policy vary src.toMap = slowText lib policy vary m := by
  rw [slowText_eq table, slowText_eq table, fieldsText_congr fun f hf => (h f hf).toMap]

theorem variantText_eq_slowText (hne : vary ≠ []) (hstar : varyContainsStar vary = false)
    (h : ∀ f ∈ selectingFields lib policy vary, Shows policy lib src m f) :
    variantText lib policy vary src = slowText lib policy vary m := by
  have hslow := slowText_toMap table policy h
  unfold variantText
  rw [if_neg hne, hstar, if_neg (by simp)]
  split_ifs
  · exact hslow
  · cases hstack : stackText lib policy src.view (varyFields lib vary) [] with
    | none => exact hslow
    | some buf =>
      obtain ⟨hbuf, hfits⟩ := stackText_some lib hstack
      rw [nil_append, ← selectingFields,
        fieldsText_congr fun f hf => (h f hf).view (hfits f hf)] at hbuf
      rw [slowText_eq table policy vary m, hbuf]
      simp [fieldsText_eq_nil]

section

variable {name : Bytes} (hname : byte ',' ∉ name) (hstar : trimSpace name ≠ ascii "*")
  (hkept : shouldExcludeHeader policy (toLowerText lib.lowerRune (trimSpace name)) = false)

include hname hkept

theorem slowText_listOf (m : HeaderMap) :
    slowText lib policy (listOf name) m =
      some (fieldText (toLowerText lib.lowerRune (trimSpace name))
        (fieldValue lib policy m (toLowerText lib.lowerRune (trimSpace name)))) := by
  rw [slowText_eq table, selectingFields, varyFields_listOf hname]
  simp [hkept, fieldsText]

include hstar in
theorem variantText_listOf (src : VarySource) :
    variantText lib policy (listOf name) src =
      some (fieldText (toLowerText lib.lowerRune (trimSpace name)) (fieldValue lib policy
        (if 256 < (fieldText (toLowerText lib.lowerRune (trimSpace name)) (fieldValue lib policy
          src.view (toLowerText lib.lowerRune (trimSpace name)))).length then src.toMap else src.view)
        (toLowerText lib.lowerRune (trimSpace name)))) := by
  rw [variantText, if_neg (by simp [listOf]), varyContainsStar_listOf hname hstar, if_neg (by simp),
    splitOn_listOf hname, if_neg (by simp), varyFields_listOf hname]
  simp only [stackText, hkept, Bool.false_eq_true, if_false, length_nil, Nat.zero_add]
  split_ifs
  · exact slowText_listOf table policy hname hkept src.toMap
  · simp [fieldText_ne_nil]

end

omit table in
theorem text_eq_of_withVary {t t' : Bytes}
    (h : ∀ (sum64 : Bytes → UInt64) (primary : Key),
      primary.withVary (sum64 t) = primary.withVary (sum64 t')) : t = t' := by
  by_contra hne
  have hkey := h (fun s => if s = t then 1 else 0) ⟨0, 0⟩
  rw [if_pos rfl, if_neg (Ne.symm hne)] at hkey
  exact absurd hkey (by decide)

/-! ## The sources -/

def KeysAgree (lib : Stdlib W) (sum64 : Bytes → UInt64) (primary : Key) (vary : Bytes)
    (req : RawRequest) (h : FastHeader) : Prop :=
  (∀ m : Map, variantKeyCore lib sum64 primary policy vary (mapVarySrc m) =
      variantKeySlow lib sum64 primary policy vary (mapView m)) ∧
    ∀ src ∈ [mapVarySrc (reqHeaderMapFromRaw req), rawVarySrc req, h.varySrc],
      variantKeyCore lib sum64 primary policy vary src =
          variantKeySlow lib sum64 primary policy vary src.toMap ∧
        variantKeyCore lib sum64 primary policy vary src =
          variantKeyCore lib sum64 primary policy vary (mapVarySrc (reqHeaderMapFromRaw req))

omit table in
theorem shows_mapVarySrc (lib : Stdlib W) (m : Map) (f : Bytes) :
    Shows policy lib (mapVarySrc m) (mapView m) f := ⟨rfl, fun _ => rfl⟩

omit table in
theorem shows_rawVarySrc (lib : Stdlib W) {req : RawRequest} (hreq : Stripped req) (f : Bytes) :
    Shows policy lib (rawVarySrc req) (mapView (reqHeaderMapFromRaw req)) f :=
  ⟨rfl, fun _ => fieldValue_congr lib policy (alike_rawVarySrc hreq) f⟩

theorem variantKeyCore_eq_slow (hne : vary ≠ []) (hstar : varyContainsStar vary = false)
    (h : ∀ f ∈ selectingFields lib policy vary, Shows policy lib src m f) (sum64 : Bytes → UInt64)
    (primary : Key) :
    variantKeyCore lib sum64 primary policy vary src =
        variantKeySlow lib sum64 primary policy vary m ∧
      variantKeySlow lib sum64 primary policy vary src.toMap =
        variantKeySlow lib sum64 primary policy vary m := by
  rw [variantKeyCore, variantText_eq_slowText table policy hne hstar h]
  refine ⟨rfl, ?_⟩
  rw [variantKeySlow, slowText_toMap table policy h]
  rfl

theorem shows_of_keys {m : Map} {f : Bytes} (hf : Nameable lib f)
    (hkept : shouldExcludeHeader policy f = false)
    (h : ∀ (sum64 : Bytes → UInt64) (primary : Key) (vary : Bytes), vary ≠ [] →
      varyContainsStar vary = false →
      variantKeyCore lib sum64 primary policy vary src =
          variantKeySlow lib sum64 primary policy vary src.toMap ∧
        variantKeyCore lib sum64 primary policy vary src =
          variantKeyCore lib sum64 primary policy vary (mapVarySrc m)) :
    Shows policy lib src (mapView m) f := by
  obtain ⟨name, hname, hstar, rfl⟩ := hf
  have hkeys (sum64 : Bytes → UInt64) (primary : Key) := h sum64 primary (listOf name)
    (by simp [listOf]) (varyContainsStar_listOf hname hstar)
  simp only [variantKeyCore, variantKeySlow, slowText_listOf table policy hname hkept,
    variantText_listOf table policy hname hstar hkept] at hkeys
  have hslow := text_eq_of_withVary fun sum64 primary => (hkeys sum64 primary).1
  have hmap := text_eq_of_withVary fun sum64 primary => (hkeys sum64 primary).2
  have hvalue {f v v' : Bytes} (h : fieldText f v = fieldText f v') : v = v' := by
    simpa [fieldText] using h
  replace hslow := hvalue hslow
  replace hmap := hvalue hmap
  rw [show (mapVarySrc m).toMap = (mapVarySrc m).view from rfl, ite_self] at hmap
  refine ⟨hslow.symm.trans hmap, fun hfits => ?_⟩
  rwa [if_neg (not_lt.2 hfits)] at hmap

/-- The keys agree for every list exactly when fasthttp's header shows, field by field, what the
lines say. -/
theorem variant_keys_agree_iff {req : RawRequest} (hreq : Stripped req) (h : FastHeader) :
    (∀ (sum64 : Bytes → UInt64) (primary : Key) (vary : Bytes), vary ≠ [] →
        varyContainsStar vary = false → KeysAgree policy lib sum64 primary vary req h) ↔
      ∀ f, Nameable lib f → shouldExcludeHeader policy f = false →
        Shows policy lib h.varySrc (mapView (reqHeaderMapFromRaw req)) f := by
  constructor
  · intro hkeys f hf hkept
    exact shows_of_keys table policy hf hkept fun sum64 primary vary hne hstar =>
      (hkeys sum64 primary vary hne hstar).2 _ (by simp)
  · intro hshows sum64 primary vary hne hstar
    have hmap (m : Map) := (variantKeyCore_eq_slow table policy hne hstar
      (fun f _ => shows_mapVarySrc policy lib m f) sum64 primary).1
    have hfast : ∀ f ∈ selectingFields lib policy vary,
        Shows policy lib h.varySrc (mapView (reqHeaderMapFromRaw req)) f := by
      intro f hf
      obtain ⟨hmem, hkept⟩ := mem_filter.1 hf
      exact hshows f (nameable_of_mem hstar hmem) (by simpa using hkept)
    have hagree {src : VarySource} (hsrc : ∀ f ∈ selectingFields lib policy vary,
        Shows policy lib src (mapView (reqHeaderMapFromRaw req)) f) :
        variantKeyCore lib sum64 primary policy vary src =
            variantKeySlow lib sum64 primary policy vary src.toMap ∧
          variantKeyCore lib sum64 primary policy vary src =
            variantKeyCore lib sum64 primary policy vary (mapVarySrc (reqHeaderMapFromRaw req)) := by
      obtain ⟨hcore, hslow⟩ := variantKeyCore_eq_slow table policy hne hstar hsrc sum64 primary
      exact ⟨hcore.trans hslow.symm, hcore.trans (hmap _).symm⟩
    refine ⟨hmap, fun src hsrc => ?_⟩
    simp only [mem_cons, not_mem_nil, or_false] at hsrc
    rcases hsrc with rfl | rfl | rfl
    · exact hagree fun f _ => shows_mapVarySrc policy lib _ f
    · exact hagree fun f _ => shows_rawVarySrc policy lib hreq f
    · exact hagree hfast

end

def linesRequest (headers : List (String × String)) : RawRequest where
  method := ascii "GET"
  path := ascii "/"
  query := []
  host := ascii "shop.example"
  httpVersion := ascii "HTTP/1.1"
  headers := headers.map fun l => ⟨ascii l.1, ascii l.2⟩
  scanFlags := {}
  cacheControlRaw := []
  connectionClose := false

/-- A request with white space after its values, and a list with blanks. -/
theorem trailing_blanks_do_not_show :
    let req := linesRequest [("accept-language", "FR, de \t"), ("COOKIE", "a=1; b=2 ")]
    Stripped req ∧ KeysAgree none tableLib (fun t => t.length.toUInt64) ⟨1, 2⟩
      (ascii "Accept-Language , cookie") req (FastHeader.ofLines (canonicalLines req)) := by
  intro req
  have hreq : Stripped req := by
    unfold Stripped
    decide +kernel
  refine ⟨hreq, (variant_keys_agree_iff lowerTable_asciiTable none hreq _).2 (fun f _ _ => ?_) _ _ _
    (by decide) (by decide)⟩
  rw [varySrc_ofLines]
  exact shows_mapVarySrc none tableLib _ f

/-- fasthttp's header before it has collected the cookies. `All` joins these lines as they are. -/
def FastHeader.uncollected (ls : List Line) : FastHeader where
  peek key := ((valuesOf key ls).head?).getD []
  peekAll key := valuesOf key ls
  all := ls.filter (fun l => l.name ≠ Field.cookie) ++
    [⟨Field.cookie, joinCookies (valuesOf Field.cookie ls)⟩]

/-- Of two lines of cookies the buffer gets the first, the slow path both. With more names than the
buffers hold the keys of fasthttp's header and of the parsed lines differ. -/
theorem second_cookie_line_splits_keys :
    let req := linesRequest [("Cookie", "a=1"), ("Cookie", "b=2")]
    let h := FastHeader.uncollected (canonicalLines req)
    let key := variantKeyCore tableLib (fun t => t.length.toUInt64) ⟨1, 2⟩ none
    let slow := variantKeySlow tableLib (fun t => t.length.toUInt64) ⟨1, 2⟩ none
    variantText tableLib none (ascii "Cookie") h.varySrc = some (ascii "cookie=a=1;") ∧
      slowText tableLib none (ascii "Cookie") h.varySrc.toMap = some (ascii "cookie=a=1; b=2;") ∧
      key (ascii "Cookie") h.varySrc ≠ slow (ascii "Cookie") h.varySrc.toMap ∧
      key (ascii "Cookie,,,,,,,,,,,,,,,,") h.varySrc ≠
        key (ascii "Cookie,,,,,,,,,,,,,,,,") (rawVarySrc req) := by
  decide

end Bouine.Cache
