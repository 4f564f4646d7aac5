import Bouine.Lib.Url
import Bouine.Cache.Captured
import Bouine.Cache.OriginTarget

/-! # The refresh registry

Refresh-before-expiry saves, under each key, what it needs to ask the origin again
(`internal/cache/refresh_registry.go`), and rebuilds a request from it in time
(`doBackgroundRefresh` in `internal/cache/handler.go`). The file says when the rebuilt request is
about the same object.
-/

namespace Bouine.Cache

open Lib Header Server Bool
open List hiding splitOn

/-! ## Saving -/

structure RefreshEntry where
  /-- the request target as it came in -/
  url : Bytes
  method : Bytes
  header : Map
deriving DecidableEq

def hasCookieKeying (policy : Option KeyPolicy) : Bool :=
  hasCookiePresence policy || hasCookieValues policy

def saveField (hdr saved : Map) (f : Bytes) : Map :=
  if trimSpace f = [] then saved
  else if trimSpace f = ascii "*" then hdr
  else if hdr.get (trimSpace f) ≠ [] then saved.set (trimSpace f) (hdr.get (trimSpace f))
  else saved

def savedAlways (policy : Option KeyPolicy) (hdr : Map) : Map :=
  let saved :=
    if hdr.get Field.acceptEncoding ≠ [] then
      Map.empty.set Field.acceptEncoding (hdr.get Field.acceptEncoding)
    else Map.empty
  if hasCookieKeying policy ∧ hdr.cookieAll ≠ [] then saved.set Field.cookie hdr.cookieAll else saved

def savedHeader (policy : Option KeyPolicy) (hdr : Map) (vary : Bytes) : Map :=
  if vary = [] then savedAlways policy hdr
  else (splitOn (byte ',') vary).foldl (saveField hdr) (savedAlways policy hdr)

def register (policy : Option KeyPolicy) (ri : CapturedRequest) (vary : Bytes) : RefreshEntry :=
  ⟨ri.uri, ri.method, savedHeader policy ri.header vary⟩

/-- The Vary list that `registerRefresh` passes on. -/
def Stored.listedVary (o : Stored) : Bytes := if o.header.entries ≠ [] then o.varyValue else []

/-! ## Rebuilding -/

/-- The request of `doBackgroundRefresh`; an entry that does not parse is dropped. -/
def rebuild (codec : AuthorityCodec) (entry : RefreshEntry) : Option CapturedRequest :=
  (Url.parse codec entry.url).map fun u =>
    { method := entry.method, uri := entry.url, host := u.host, path := u.path
      tls := u.scheme == ascii "https", header := entry.header }

structure OriginRequest where
  method : Bytes
  target : Bytes
  host : Bytes
  header : Raw
deriving DecidableEq

/-- The request that is sent for it; `parse` is `fasthttp`'s reading of targets. -/
def refreshRequest {W : Type*} (h : Outbound W) (parse : Bytes → Option ParsedURI)
    (strip : StripPrefix) (ri : CapturedRequest) (stale : Validators) : OriginRequest where
  method := ri.method
  target := originURI parse strip ri.uri
  host := ri.host
  header := backgroundRequest h ri.header stale

/-! ## The fields of a Vary list -/

def namesField (f : Bytes) : Bool := f ≠ [] && f ≠ ascii "*"

def listedFields (vary : Bytes) : List Bytes :=
  ((splitOn (byte ',') vary).map trimSpace).filter namesField

def isCookieField (policy : Option KeyPolicy) (f : Bytes) : Bool :=
  (f == cookieValuesField && hasCookieValues policy) ||
    (f == cookiePresenceField && hasCookiePresence policy)

/-- The value of a listed field: its lines as one, or the reduction of the cookies. -/
def listedValue (policy : Option KeyPolicy) (m : Map) (f : Bytes) : Bytes :=
  match policy with
  | some p =>
    if f = cookieValuesField ∧ hasCookieValues policy then cookieValuesValue p m.cookieAll
    else if f = cookiePresenceField ∧ hasCookiePresence policy then
      cookiePresenceValue p m.cookieAll
    else m.getAll f
  | none => m.getAll f

def Echoes (hdr m : Map) : Prop :=
  ∀ n, (∀ v ∈ valuesOf n m.entries, v ∈ valuesOf n hdr.entries) ∧
    (valuesOf n m.entries).length ≤ (valuesOf n hdr.entries).length

section

variable {hdr saved m : Map} {policy : Option KeyPolicy} {vary : Bytes}

theorem valuesOf_eq_nil (hcap : Captures hdr) {f : Bytes} (hf : isCanonical f ≠ true) :
    valuesOf f hdr.entries = [] :=
  Map.valuesOf_eq_nil_iff.2 fun e he hname => hf (hname ▸ hcap.canonical e he)

theorem get_mem (hcap : Captures hdr) {f : Bytes} (hne : hdr.get f ≠ []) :
    hdr.get f ∈ valuesOf (canonicalHeaderKey f) hdr.entries := by
  rw [Map.get_of_canonical hcap.canonical] at hne ⊢
  cases hlines : valuesOf (canonicalHeaderKey f) hdr.entries with
  | nil => simp [hlines] at hne
  | cons v vs => exact mem_cons_self

theorem cookieAll_eq (hone : (valuesOf Field.cookie hdr.entries).length ≤ 1) :
    hdr.cookieAll = List.intercalate (ascii "; ") (valuesOf Field.cookie hdr.entries) := by
  unfold Map.cookieAll
  match hlines : valuesOf Field.cookie hdr.entries, hone with
  | [], _ => rfl
  | [v], _ => by_cases hv : v = [] <;> simp [hv]

theorem cookieAll_mem (hcap : Captures hdr) (hne : hdr.cookieAll ≠ []) :
    hdr.cookieAll ∈ valuesOf Field.cookie hdr.entries := by
  have hone := hcap.oneCookie
  rw [cookieAll_eq hone] at hne ⊢
  match hlines : valuesOf Field.cookie hdr.entries, hone with
  | [], _ => simp [hlines] at hne
  | [v], _ => simp

theorem echoes_empty : Echoes hdr Map.empty := fun n => by simp [Map.empty, valuesOf]

theorem echoes_set (he : Echoes hdr m) {key v : Bytes}
    (hv : v ∈ valuesOf (canonicalHeaderKey key) hdr.entries) : Echoes hdr (m.set key v) := by
  intro n
  by_cases hn : n = canonicalHeaderKey key
  · subst hn
    obtain ⟨hsub, hlen⟩ := he (canonicalHeaderKey key)
    rw [Map.valuesOf_set]
    refine ⟨fun w hw => ?_, ?_⟩
    · rcases mem_cons.1 hw with rfl | hw
      · exact hv
      · exact hsub w (mem_of_mem_drop hw)
    · have hpos := length_pos_of_mem hv
      simp only [length_cons, length_drop]
      omega
  · rw [Map.valuesOf_set_of_ne m v hn]
    exact he n

theorem valuesOf_set_ne_nil {key v n : Bytes}
    (h : n = canonicalHeaderKey key ∨ valuesOf n m.entries ≠ []) :
    valuesOf n (m.set key v).entries ≠ [] := by
  by_cases hn : n = canonicalHeaderKey key
  · rw [hn, Map.valuesOf_set]
    exact cons_ne_nil _ _
  · rw [Map.valuesOf_set_of_ne m v hn]
    exact h.resolve_left hn

theorem Echoes.ne_nil (he : Echoes hdr m) {n : Bytes} (hn : valuesOf n m.entries ≠ []) :
    valuesOf n hdr.entries ≠ [] := by
  obtain ⟨v, hv⟩ := exists_mem_of_ne_nil _ hn
  exact ne_nil_of_mem ((he n).1 v hv)

/-- What a copy must have for the listed fields to be read from it. -/
structure Saves (policy : Option KeyPolicy) (hdr : Map) (fs : List Bytes) (m : Map) : Prop where
  echoes : Echoes hdr m
  listed : ∀ f ∈ fs, hdr.get f ≠ [] → valuesOf (canonicalHeaderKey f) m.entries ≠ []
  cookies : hasCookieKeying policy = true → hdr.cookieAll ≠ [] →
    valuesOf Field.cookie m.entries ≠ []

theorem saves_savedAlways (hcap : Captures hdr) : Saves policy hdr [] (savedAlways policy hdr) := by
  have hkey : canonicalHeaderKey Field.cookie = Field.cookie := by decide
  have hencoding : Echoes hdr (if hdr.get Field.acceptEncoding ≠ [] then
      Map.empty.set Field.acceptEncoding (hdr.get Field.acceptEncoding) else Map.empty) := by
    split_ifs with hae
    · exact echoes_set echoes_empty (get_mem hcap hae)
    · exact echoes_empty
  refine ⟨?_, by simp, ?_⟩
  · unfold savedAlways
    by_cases hcookie : hasCookieKeying policy = true ∧ hdr.cookieAll ≠ []
    · rw [if_pos hcookie]
      exact echoes_set hencoding (by rw [hkey]; exact cookieAll_mem hcap hcookie.2)
    · rw [if_neg hcookie]
      exact hencoding
  · intro hkeying hne
    unfold savedAlways
    rw [if_pos ⟨hkeying, hne⟩]
    exact valuesOf_set_ne_nil (.inl hkey.symm)

theorem saves_saveField (hcap : Captures hdr) {fs : List Bytes} (hs : Saves policy hdr fs saved)
    (f : Bytes) :
    Saves policy hdr (fs ++ [trimSpace f].filter namesField) (saveField hdr saved f) := by
  unfold saveField
  by_cases hempty : trimSpace f = []
  · simpa [hempty, namesField] using hs
  by_cases hstar : trimSpace f = ascii "*"
  · have hstarName : namesField (trimSpace f) = false := by simp [namesField, hstar]
    rw [if_neg hempty, if_pos hstar, filter_cons_of_neg (by simp [hstarName]),
      filter_nil, append_nil]
    exact ⟨fun n => ⟨fun v hv => hv, le_rfl⟩, fun g hg hne => hs.echoes.ne_nil (hs.listed g hg hne),
      fun hkeying hne => hs.echoes.ne_nil (hs.cookies hkeying hne)⟩
  have hname : namesField (trimSpace f) = true := by simp [namesField, hempty, hstar]
  rw [if_neg hempty, if_neg hstar, filter_cons_of_pos hname]
  by_cases hget : hdr.get (trimSpace f) = []
  · rw [if_neg (by simpa using hget)]
    refine ⟨hs.echoes, fun g hg hne => ?_, hs.cookies⟩
    rcases mem_append.1 hg with hg | hg
    · exact hs.listed g hg hne
    · rw [mem_singleton.1 hg] at hne
      exact absurd hget hne
  · rw [if_pos hget]
    refine ⟨echoes_set hs.echoes (get_mem hcap hget), fun g hg hne => ?_, fun hkeying hne => ?_⟩
    · rcases mem_append.1 hg with hg | hg
      · exact valuesOf_set_ne_nil (.inr (hs.listed g hg hne))
      · rw [mem_singleton.1 hg]
        exact valuesOf_set_ne_nil (.inl rfl)
    · exact valuesOf_set_ne_nil (.inr (hs.cookies hkeying hne))

theorem saves_savedHeader (policy : Option KeyPolicy) (hcap : Captures hdr) (vary : Bytes) :
    Saves policy hdr (listedFields vary) (savedHeader policy hdr vary) := by
  have hloop : ∀ (ls fs : List Bytes) (m : Map), Saves policy hdr fs m →
      Saves policy hdr (fs ++ (ls.map trimSpace).filter namesField) (ls.foldl (saveField hdr) m) := by
    intro ls
    induction ls with
    | nil => simp
    | cons f ls ih =>
      intro fs m hm
      have hstep := ih _ _ (saves_saveField hcap hm f)
      rwa [append_assoc, ← filter_append] at hstep
  unfold savedHeader
  split_ifs with hvary
  · subst hvary
    exact saves_savedAlways hcap
  · exact hloop _ [] _ (saves_savedAlways hcap)

theorem saves_replayed {fs : List Bytes} (hs : Saves policy hdr fs m) :
    Saves policy hdr fs (headerFromCtx (replayHeaders m)) ∧
      ∀ n, (valuesOf n (headerFromCtx (replayHeaders m)).entries).length ≤ 1 := by
  have hlines : ∀ n, valuesOf n (headerFromCtx (replayHeaders m)).entries =
      ((valuesOf n m.entries).getLast?).toList := by
    intro n
    rw [valuesOf_headerFromCtx, peekAll_replayHeaders]
  have hkept : ∀ n, valuesOf n m.entries ≠ [] →
      valuesOf n (headerFromCtx (replayHeaders m)).entries ≠ [] := by
    intro n hn
    rw [hlines, getLast?_eq_some_getLast hn]
    exact cons_ne_nil _ _
  have hone : ∀ n, (valuesOf n (headerFromCtx (replayHeaders m)).entries).length ≤ 1 := by
    intro n
    rw [hlines]
    cases (valuesOf n m.entries).getLast? <;> simp
  refine ⟨⟨fun n => ⟨fun v hv => ?_, ?_⟩, fun f hf hne => hkept _ (hs.listed f hf hne),
    fun hkeying hne => hkept _ (hs.cookies hkeying hne)⟩, hone⟩
  · rw [hlines, Option.mem_toList] at hv
    exact (hs.echoes n).1 v (mem_of_getLast? hv)
  · by_cases hn : valuesOf n m.entries = []
    · simp [hlines, hn]
    · exact (hone n).trans (length_pos_iff.2 (hs.echoes.ne_nil hn))

end

/-! ## Reading the copy -/

section

variable {hdr m : Map} {policy : Option KeyPolicy} {fs : List Bytes} {f : Bytes}

theorem getAll_eq (hcap : Captures hdr) (he : Echoes hdr m) (f : Bytes) :
    m.getAll f = List.intercalate (ascii ", ") (valuesOf (canonicalHeaderKey f) m.entries) := by
  by_cases hf : isCanonical f = true
  · rw [Map.getAll_of_isCanonical hf, canonicalHeaderKey_of_isCanonical hf]
  · have hnone : valuesOf f m.entries = [] := by
      by_contra hne
      exact he.ne_nil hne (valuesOf_eq_nil hcap hf)
    simp [Map.getAll, hnone, hf, canonicalHeaderKey]

variable {v : Bytes}

theorem first_line {hdr : Map} (hcap : Captures hdr)
    (hv : valuesOf (canonicalHeaderKey f) hdr.entries = [v]) : hdr.get f = v := by
  rw [Map.get_of_canonical hcap.canonical, hv]
  rfl

theorem intercalate_eq (he : Echoes hdr m) {n : Bytes} (sep : Bytes)
    (hone : (valuesOf n hdr.entries).length ≤ 1)
    (hsaved : ∀ v, valuesOf n hdr.entries = [v] → v ≠ [] → valuesOf n m.entries ≠ []) :
    List.intercalate sep (valuesOf n m.entries) =
      List.intercalate sep (valuesOf n hdr.entries) := by
  obtain ⟨hsub, hlen⟩ := he n
  match hh : valuesOf n hdr.entries, hm : valuesOf n m.entries with
  | [], [] => rfl
  | [], w :: ws => simp [hh, hm] at hlen
  | [v], [] =>
    have hv : v = [] := by
      by_contra hv
      exact hsaved v hh hv hm
    simp [hv]
  | [v], [w] =>
    have hw : w = v := by simpa [hh, hm] using hsub w
    rw [hw]
  | [v], w :: w' :: ws => simp [hh, hm] at hlen
  | v :: v' :: vs, _ => simp [hh] at hone

theorem listedValue_of_isCookieField (hcap : Captures hdr) (hs : Saves policy hdr fs m)
    (hf : isCookieField policy f) : listedValue policy m f = listedValue policy hdr f := by
  have hkeying : hasCookieKeying policy = true := by
    simp only [isCookieField, or_eq_true, and_eq_true] at hf
    rcases hf with ⟨-, h⟩ | ⟨-, h⟩ <;> simp [hasCookieKeying, h]
  have hcookies : m.cookieAll = hdr.cookieAll := by
    have hone := hcap.oneCookie
    rw [cookieAll_eq hone, cookieAll_eq ((hs.echoes _).2.trans hone)]
    refine intercalate_eq hs.echoes _ hone fun v hv hne => hs.cookies hkeying ?_
    rw [cookieAll_eq hone, hv]
    simpa using hne
  cases policy with
  | none => simp [isCookieField, hasCookieValues, hasCookiePresence] at hf
  | some p =>
    simp only [listedValue, hcookies]
    split_ifs with hvalues hpresence
    · rfl
    · rfl
    · simp only [isCookieField, or_eq_true, and_eq_true, beq_iff_eq] at hf
      exact (hf.elim hvalues hpresence).elim

theorem listedValue_of_not (hf : isCookieField policy f = false) (m : Map) :
    listedValue policy m f = m.getAll f := by
  cases policy with
  | none => rfl
  | some p =>
    simp only [isCookieField, or_eq_false_iff, and_eq_false_iff, beq_eq_false_iff_ne] at hf
    simp only [listedValue]
    rw [if_neg fun h => ?_, if_neg fun h => ?_]
    · exact hf.2.elim (fun hne => hne h.1) fun hno => by simp [hno] at h
    · exact hf.1.elim (fun hne => hne h.1) fun hno => by simp [hno] at h

theorem listedValue_of_one (hcap : Captures hdr) (hs : Saves policy hdr fs m) (hmem : f ∈ fs)
    (hone : (valuesOf (canonicalHeaderKey f) hdr.entries).length ≤ 1)
    (hf : isCookieField policy f = false) : listedValue policy m f = listedValue policy hdr f := by
  have hself : Echoes hdr hdr := fun n => ⟨fun v hv => hv, le_rfl⟩
  rw [listedValue_of_not hf, listedValue_of_not hf, getAll_eq hcap hs.echoes, getAll_eq hcap hself]
  refine intercalate_eq hs.echoes _ hone fun v hv hne => hs.listed f hmem ?_
  rwa [first_line hcap hv]

theorem length_le_intercalate (sep : Bytes) {ls : List Bytes} (hv : v ∈ ls) :
    v.length ≤ (List.intercalate sep ls).length := by
  induction ls with
  | nil => simp at hv
  | cons a ls ih =>
    cases ls with
    | nil => simp_all [intercalate]
    | cons b ls =>
      rw [intercalate_cons_cons, length_append, length_append]
      rcases mem_cons.1 hv with rfl | hv
      · omega
      · have := ih hv
        omega

theorem length_lt_intercalate {ls : List Bytes} (hlen : 2 ≤ ls.length) (hv : v ∈ ls) :
    v.length < (List.intercalate (ascii ", ") ls).length := by
  match ls, hlen with
  | a :: b :: ls, _ =>
    have hsep : (ascii ", ").length = 2 := by decide
    rw [intercalate_cons_cons, length_append, length_append]
    rcases mem_cons.1 hv with rfl | hv
    · omega
    · have := length_le_intercalate (ascii ", ") hv
      omega

theorem listedValue_of_many (hcap : Captures hdr) (he : Echoes hdr m)
    (hm : (valuesOf (canonicalHeaderKey f) m.entries).length ≤ 1)
    (hmany : 2 ≤ (valuesOf (canonicalHeaderKey f) hdr.entries).length)
    (hf : isCookieField policy f = false) : listedValue policy m f ≠ listedValue policy hdr f := by
  have hself : Echoes hdr hdr := fun n => ⟨fun v hv => hv, le_rfl⟩
  rw [listedValue_of_not hf, listedValue_of_not hf, getAll_eq hcap he, getAll_eq hcap hself]
  intro heq
  have hlong := congrArg length heq
  match hlines : valuesOf (canonicalHeaderKey f) m.entries, hm with
  | [], _ =>
    obtain ⟨v, hv⟩ := exists_mem_of_length_pos (by omega : 0 < (valuesOf
      (canonicalHeaderKey f) hdr.entries).length)
    have := length_lt_intercalate hmany hv
    rw [hlines, intercalate_nil, length_nil] at hlong
    omega
  | [v], _ =>
    have hv : v ∈ valuesOf (canonicalHeaderKey f) hdr.entries :=
      (he _).1 v (by simp [hlines])
    have := length_lt_intercalate hmany hv
    rw [hlines, intercalate_singleton] at hlong
    omega

end

/-! ## The identity of a rebuilt request -/

inductive Registrant where
  | live (ctx : LiveRequest)
  | raw (tls : Bool) (req : RawRequest)

def Registrant.info : Registrant → CapturedRequest
  | live ctx => requestInfoFromCtx ctx
  | raw tls req => requestInfoFromRaw tls req

theorem Registrant.captures (r : Registrant) : Captures r.info.header := by
  cases r with
  | live ctx => exact captures_requestInfoFromCtx ctx
  | raw tls req => exact captures_requestInfoFromRaw tls req

section

variable {W : Type*} (h : Outbound W) (parse : Bytes → Option ParsedURI) (strip : StripPrefix)

/-- A rebuilt request is about the object the first one filled: so is the request sent for it, and a
response is stored and stamped as before. -/
structure KeepsIdentity (vary : Bytes) (stale : Validators) (ri ri' : CapturedRequest) : Prop where
  host : ri'.host = ri.host
  tls : ri'.tls = ri.tls
  path : ri'.path = ri.path
  query : ri'.rawQuery = ri.rawQuery
  values : ∀ f ∈ listedFields vary,
    listedValue h.policy ri'.header f = listedValue h.policy ri.header f
  sentTo : (refreshRequest h parse strip ri' stale).host = ri.host ∧
    (refreshRequest h parse strip ri' stale).target = originURI parse strip ri.uri
  /-- up to what the route does with every request -/
  sentValues : ∀ f ∈ listedFields vary,
    listedValue h.policy (headerFromCtx (replayHeaders ri'.header)) f =
      listedValue h.policy ri.header f
  key : ∀ sum128 : Bytes → Key, buildKey sum128 ri'.toRequestInfo h.policy =
    buildKey sum128 ri.toRequestInfo h.policy
  stamps : ∀ status body resMap,
    storedHeader ri' status body resMap = storedHeader ri status body resMap

/-- The target has scheme and host, its path is the one `fasthttp` reads, and no listed field has
several lines. -/
structure TargetTellsAll (vary : Bytes) (ri : CapturedRequest) (u : Url) : Prop where
  host : u.host = ri.host
  scheme : (u.scheme == ascii "https") = ri.tls
  path : u.path = ri.path
  lines : ∀ f ∈ listedFields vary, isCookieField h.policy f = true ∨
    (valuesOf (canonicalHeaderKey f) ri.header.entries).length ≤ 1

/-- The request rebuilt from an entry keeps the identity of the object exactly if the saved target
tells all of it, whoever registers the key. -/
theorem rebuilt_keeps_identity_iff (codec : AuthorityCodec) (r : Registrant) (o : Stored)
    (stale : Validators) :
    (∀ ri', rebuild codec (register h.policy r.info o.listedVary) = some ri' →
        KeepsIdentity h parse strip o.listedVary stale r.info ri') ↔
      ∀ u, Url.parse codec r.info.uri = some u → TargetTellsAll h o.listedVary r.info u := by
  have hcap := r.captures
  have hsaved := saves_savedHeader h.policy hcap o.listedVary
  obtain ⟨hsent, hone⟩ := saves_replayed hsaved
  constructor
  · intro hall u hu
    have hkeeps := hall _ (by rw [rebuild, register, hu]; rfl)
    refine ⟨hkeeps.host, hkeeps.tls, hkeeps.path, fun f hf => ?_⟩
    by_cases hcookie : isCookieField h.policy f = true
    · exact .inl hcookie
    · refine .inr (Nat.le_of_not_lt fun hmany => ?_)
      exact listedValue_of_many hcap hsent.echoes (hone _) hmany (by simpa using hcookie)
        (hkeeps.sentValues f hf)
  · intro hall ri' hri'
    obtain ⟨u, hu, rfl⟩ := Option.map_eq_some_iff.1 hri'
    have htells := hall u hu
    have hvalue : ∀ {m}, Saves h.policy r.info.header (listedFields o.listedVary) m →
        ∀ f ∈ listedFields o.listedVary,
          listedValue h.policy m f = listedValue h.policy r.info.header f := by
      intro m hm f hf
      by_cases hcookie : isCookieField h.policy f = true
      · exact listedValue_of_isCookieField hcap hm hcookie
      · exact listedValue_of_one hcap hm hf ((htells.lines f hf).resolve_left hcookie)
          (by simpa using hcookie)
    have hinfo : (⟨r.info.method, r.info.uri, u.host, u.path, u.scheme == ascii "https"⟩ :
        RequestInfo) = r.info.toRequestInfo := by
      rw [htells.host, htells.path, htells.scheme]
    exact {
      host := htells.host
      tls := htells.scheme
      path := htells.path
      query := rfl
      values := hvalue hsaved
      sentTo := ⟨htells.host, rfl⟩
      sentValues := hvalue hsent
      key := fun sum128 => congrArg (buildKey sum128 · h.policy) hinfo
      stamps := fun status body resMap => by
        simp only [storedHeader, htells.host, htells.path] }

end

/-! ## A refreshed object loses its host -/

def plainCodec : AuthorityCodec := ⟨fun a => some ⟨none, a⟩, id⟩

def pageRequest : LiveRequest where
  method := ascii "GET"
  uri := ascii "/page"
  host := ascii "example.com"
  path := ascii "/page"
  tls := false
  header := ⟨[⟨ascii "Host", ascii "example.com"⟩]⟩
  canonical := by decide
  oneCookie := by decide

theorem refreshed_object_loses_host :
    ∃ ri', rebuild plainCodec (register none (Registrant.live pageRequest).info []) = some ri' ∧
      ri'.host = [] ∧
      hashedBytes ri'.toRequestInfo none ≠
        hashedBytes (Registrant.live pageRequest).info.toRequestInfo none ∧
      (storedHeader ri' 200 (ascii "body") Map.empty).get Field.xBouineHost = [] :=
  ⟨_, rfl, by decide +kernel⟩

end Bouine.Cache
