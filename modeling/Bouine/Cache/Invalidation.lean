import Bouine.Cache.RefreshRegistry

/-! # Invalidation after an unsafe request

A successful answer to an unsafe request purges the request's URL and those that Content-Location
and Location name (`invalidateAfterProxyFast` and `buildLocationKey` in
`internal/cache/handler.go`). The file says which answers keep to the origin of the request.
-/

namespace Bouine.Cache

open Lib Header Option

def Field.location : Bytes := ascii "Location"

def Field.locations : List Bytes := [contentLocation, location]

section

variable (codec : AuthorityCodec)

def requestInfoFromURL (method rawURL : Bytes) : RequestInfo :=
  match Url.parse codec rawURL with
  | none => { method, uri := rawURL, host := [], path := [], tls := false }
  | some u =>
    { method, uri := rawURL, host := u.host, path := u.path, tls := u.scheme == ascii "https" }

/-- What `buildLocationKey` comes to. -/
inductive Located where
  /-- the target of the request was not parsed, and its URL is dereferenced -/
  | nilDereference
  /-- the zero key -/
  | nothing
  | url (ri : RequestInfo)
deriving DecidableEq

def locate (ctx : RequestInfo) (loc : Bytes) : Located :=
  match Url.parse codec loc with
  | none => .nothing
  | some ref =>
    match Url.resolveReference (Url.parse codec ctx.uri) ref with
    | none => .nilDereference
    | some resolved =>
      let scheme := if resolved.scheme = [] then scheme ctx.tls else resolved.scheme
      let host := if resolved.host = [] then ctx.host else resolved.host
      .url { requestInfoFromURL codec (ascii "GET") (resolved.text codec) with
        host, tls := scheme == ascii "https" }

structure Purge where
  ri : RequestInfo
  key : Key
deriving DecidableEq

variable (sum128 : Bytes → Key) (policy : Option KeyPolicy)

/-- The purge of one field; `none` if it crashes. -/
def purgeLocation (ctx : RequestInfo) (loc : Bytes) : Option (List Purge) :=
  if loc = [] then some []
  else
    match locate codec ctx loc with
    | .nilDereference => none
    | .nothing => some []
    | .url ri =>
      let key := buildKey sum128 ri policy
      some (if key = ⟨0, 0⟩ then [] else [⟨ri, key⟩])

/-- The purges of `invalidateAfterProxyFast` that the response asks for. -/
def purgeLocations (ctx : RequestInfo) (resp : Raw) : List Bytes → Option (List Purge)
  | [] => some []
  | name :: names =>
    match purgeLocation codec sum128 policy ctx (resp.peek name) with
    | none => none
    | some ps => (purgeLocations ctx resp names).map (ps ++ ·)

def invalidateAfterProxyFast (ctx : RequestInfo) (resp : Raw) : Option (List Purge) :=
  let own := { ctx with method := ascii "GET" }
  (purgeLocations codec sum128 policy ctx resp Field.locations).map
    (⟨own, buildKey sum128 own policy⟩ :: ·)

/-! ## Which locations keep to the origin -/

def SameOrigin (ctx ri : RequestInfo) : Prop :=
  ri.tls = ctx.tls ∧ keyHost ri policy = keyHost ctx policy

def KeepsToOrigin (ctx : RequestInfo) (purged : Option (List Purge)) : Prop :=
  ∃ ps, purged = some ps ∧ ∀ p ∈ ps, SameOrigin policy ctx p.ri

/-- The value is empty or no URL, or resolves, against the target, to the request's own scheme and
host. -/
def LocationFits (ctx : RequestInfo) (loc : Bytes) : Prop :=
  loc ≠ [] → ∀ ref, Url.parse codec loc = some ref →
    let base := Url.parse codec ctx.uri
    (ref.scheme ≠ [] ∨ base.isSome) ∧
    (Url.resolvedScheme base ref ≠ [] →
      (Url.resolvedScheme base ref == ascii "https") = ctx.tls) ∧
    (Url.resolvedHost base ref ≠ [] → includeHostKey policy = true →
      canonicalHost (Url.resolvedHost base ref) = canonicalHost ctx.host)

variable {policy} {ctx : RequestInfo}

theorem scheme_beq (tls : Bool) : (scheme tls == ascii "https") = tls := by
  cases tls <;> decide

theorem sameOrigin_iff (ri : RequestInfo) :
    SameOrigin policy ctx ri ↔ ri.tls = ctx.tls ∧
      (includeHostKey policy → canonicalHost ri.host = canonicalHost ctx.host) := by
  unfold SameOrigin keyHost
  cases includeHostKey policy <;> simp

theorem locationFits_iff (loc : Bytes) (hloc : loc ≠ []) :
    LocationFits codec policy ctx loc ↔ locate codec ctx loc ≠ .nilDereference ∧
      ∀ ri, locate codec ctx loc = .url ri → SameOrigin policy ctx ri := by
  unfold LocationFits locate
  cases hparse : Url.parse codec loc with
  | none => simp
  | some ref =>
    simp only [hloc, ne_eq, some.injEq]
    cases hres : Url.resolveReference (Url.parse codec ctx.uri) ref with
    | none =>
      obtain ⟨hscheme, hbase⟩ := (Url.resolveReference_eq_none_iff _ _).1 hres
      simp [hscheme, hbase]
    | some resolved =>
      have hsome : ref.scheme ≠ [] ∨ (Url.parse codec ctx.uri).isSome = true := by
        by_contra hno
        rw [not_or, not_ne_iff, Bool.not_eq_true, isSome_eq_false_iff,
          isNone_iff_eq_none] at hno
        rw [(Url.resolveReference_eq_none_iff _ _).2 hno] at hres
        exact absurd hres (by simp)
      obtain ⟨hscheme, hhost⟩ := Url.resolveReference_origin hres
      simp only [hsome, forall_eq',
        sameOrigin_iff, ← hscheme, ← hhost]
      by_cases hs : resolved.scheme = [] <;> by_cases hh : resolved.host = [] <;>
        simp [hs, hh, scheme_beq]

theorem purgeLocation_fits (loc : Bytes) (hfits : LocationFits codec policy ctx loc) :
    KeepsToOrigin policy ctx (purgeLocation codec sum128 policy ctx loc) := by
  unfold purgeLocation
  by_cases hloc : loc = []
  · exact ⟨[], by rw [if_pos hloc], by simp⟩
  · obtain ⟨hno, hsame⟩ := (locationFits_iff codec loc hloc).1 hfits
    rw [if_neg hloc]
    cases hl : locate codec ctx loc with
    | nilDereference => exact absurd hl hno
    | nothing => exact ⟨[], rfl, by simp⟩
    | url ri =>
      refine ⟨_, rfl, fun p hp => ?_⟩
      split_ifs at hp with hzero
      · simp at hp
      · rw [List.mem_singleton.1 hp]
        exact hsame ri hl

theorem fits_of_purgeLocation (loc : Bytes)
    (hkeeps : KeepsToOrigin policy ctx (purgeLocation codec (fun _ => ⟨1, 1⟩) policy ctx loc)) :
    LocationFits codec policy ctx loc := by
  by_cases hloc : loc = []
  · exact fun hne => absurd hloc hne
  · obtain ⟨ps, hps, hsame⟩ := hkeeps
    rw [purgeLocation, if_neg hloc] at hps
    refine (locationFits_iff codec loc hloc).2 ⟨fun hl => ?_, fun ri hl => ?_⟩
    · rw [hl] at hps
      exact absurd hps (by simp)
    · rw [hl] at hps
      cases hps
      exact hsame ⟨ri, ⟨1, 1⟩⟩ (by simp [buildKey])

theorem keepsToOrigin_append {a b : Option (List Purge)} :
    KeepsToOrigin policy ctx (a.bind fun ps => b.map (ps ++ ·)) ↔
      KeepsToOrigin policy ctx a ∧ KeepsToOrigin policy ctx b := by
  constructor
  · intro hkeeps
    obtain ⟨qs, hqs, hall⟩ := hkeeps
    obtain ⟨ps, rfl, hqs⟩ := bind_eq_some_iff.1 hqs
    obtain ⟨rs, rfl, rfl⟩ := map_eq_some_iff.1 hqs
    exact ⟨⟨ps, rfl, fun p hp => hall p (List.mem_append_left _ hp)⟩,
      ⟨rs, rfl, fun p hp => hall p (List.mem_append_right _ hp)⟩⟩
  · intro hkeeps
    obtain ⟨⟨ps, rfl, hps⟩, rs, rfl, hrs⟩ := hkeeps
    exact ⟨ps ++ rs, rfl, fun p hp => (List.mem_append.1 hp).elim (hps p) (hrs p)⟩

theorem keepsToOrigin_purgeLocations (resp : Raw) (names : List Bytes) :
    KeepsToOrigin policy ctx (purgeLocations codec sum128 policy ctx resp names) ↔
      ∀ name ∈ names,
        KeepsToOrigin policy ctx (purgeLocation codec sum128 policy ctx (resp.peek name)) := by
  induction names with
  | nil => simp [purgeLocations, KeepsToOrigin]
  | cons name names ih =>
    have hbind : purgeLocations codec sum128 policy ctx resp (name :: names) =
        (purgeLocation codec sum128 policy ctx (resp.peek name)).bind fun ps =>
          (purgeLocations codec sum128 policy ctx resp names).map (ps ++ ·) := by
      rw [purgeLocations]
      cases purgeLocation codec sum128 policy ctx (resp.peek name) <;> rfl
    rw [hbind, keepsToOrigin_append, ih, List.forall_mem_cons]

theorem keepsToOrigin_invalidate (resp : Raw) :
    KeepsToOrigin policy ctx (invalidateAfterProxyFast codec sum128 policy ctx resp) ↔
      KeepsToOrigin policy ctx
        (purgeLocations codec sum128 policy ctx resp Field.locations) := by
  unfold invalidateAfterProxyFast
  cases purgeLocations codec sum128 policy ctx resp Field.locations with
  | none => simp
  | some ps => simp [KeepsToOrigin, SameOrigin, keyHost]

/-- Invalidation keeps to the origin of the request and does not crash, whatever the hash, exactly
if both location values fit. -/
theorem invalidation_keeps_to_origin_iff (policy : Option KeyPolicy) (ctx : RequestInfo)
    (resp : Raw) :
    (∀ sum128, KeepsToOrigin policy ctx
        (invalidateAfterProxyFast codec sum128 policy ctx resp)) ↔
      ∀ name ∈ Field.locations, LocationFits codec policy ctx (resp.peek name) := by
  simp only [keepsToOrigin_invalidate, keepsToOrigin_purgeLocations]
  exact ⟨fun hkeeps name hname => fits_of_purgeLocation codec _ (hkeeps _ name hname),
    fun hfits sum128 name hname => purgeLocation_fits codec sum128 _ (hfits name hname)⟩

end

/-! ## Another host is purged, and a bad target crashes -/

def shopRequest (uri : Bytes) : RequestInfo where
  method := ascii "POST"
  uri
  host := ascii "shop.example"
  path := uri
  tls := false

def locationAnswer (loc : Bytes) : Raw := ⟨[⟨Field.location, loc⟩]⟩

theorem location_purges_other_host :
    (∃ ps p, invalidateAfterProxyFast plainCodec (fun _ => ⟨1, 1⟩) none (shopRequest (ascii "/cart"))
        (locationAnswer (ascii "//bank.example/home")) = some ps ∧ p ∈ ps ∧
        keyHost p.ri none = ascii "bank.example") ∧
      invalidateAfterProxyFast plainCodec (fun _ => ⟨1, 1⟩) none (shopRequest (ascii "/%zz"))
        (locationAnswer (ascii "/cart")) = none := by
  have hother := show (invalidateAfterProxyFast plainCodec (fun _ => ⟨1, 1⟩) none
      (shopRequest (ascii "/cart")) (locationAnswer (ascii "//bank.example/home"))).map
        (List.map fun p => keyHost p.ri none) =
      some [ascii "shop.example", ascii "bank.example"] by decide +kernel
  obtain ⟨ps, hps, hhosts⟩ := map_eq_some_iff.1 hother
  obtain ⟨p, hp, hhost⟩ := List.mem_map.1 (hhosts ▸ by simp : ascii "bank.example" ∈
    ps.map fun p => keyHost p.ri none)
  exact ⟨⟨ps, p, hps, hp, hhost⟩, by decide +kernel⟩

end Bouine.Cache
