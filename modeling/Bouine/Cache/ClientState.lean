import Bouine.Cache.FillGates
import Bouine.Cache.HeaderMerge
import Bouine.Cache.Lifetime

/-! # The state of a client in the store

`buildObject` takes Set-Cookie and Set-Login out of what it stores, one deletion each, and
`MergeHeaders304` leaves those of a 304 out. A deletion takes one entry, and a response may have
several.
-/

namespace Bouine.Cache

open Lib Lib.Transition Header

namespace Field

def clientState : List Bytes := [setCookie, setLogin]

theorem canonical_clientState : ∀ f ∈ clientState, canonicalHeaderKey f = f := by decide

theorem clientState_notMerged : ∀ f ∈ clientState, f ∈ notMerged := by decide

theorem clientState_ne : ∀ f ∈ clientState,
    f ≠ xBouinePath ∧ f ≠ xBouineHost ∧ f ≠ canonicalHeaderKey contentLength ∧ f ≠ vary := by
  decide

end Field

def NoClientState (o : Stored) : Prop := ∀ e ∈ o.header.entries, e.name ∉ Field.clientState

theorem noClientState_iff {o : Stored} :
    NoClientState o ↔ ∀ f ∈ Field.clientState, valuesOf f o.header.entries = [] := by
  constructor
  · intro h f hf
    refine Map.valuesOf_eq_nil_iff.2 fun e he hname => h e he ?_
    rwa [hname]
  · intro h e he hmem
    exact Map.valuesOf_eq_nil_iff.1 (h e.name hmem) e he rfl

/-! ## The fill -/

theorem valuesOf_del_clientState (m : Map) {f : Bytes} (hf : f ∈ Field.clientState) :
    valuesOf f ((m.del setCookie).del Field.setLogin).entries = (valuesOf f m.entries).drop 1 := by
  have hcookie : canonicalHeaderKey setCookie = setCookie :=
    Field.canonical_clientState _ (by simp [Field.clientState])
  have hlogin : canonicalHeaderKey Field.setLogin = Field.setLogin :=
    Field.canonical_clientState _ (by simp [Field.clientState])
  have hne : setCookie ≠ Field.setLogin := by decide
  simp only [Field.clientState, List.mem_cons, List.not_mem_nil, or_false] at hf
  rcases hf with rfl | rfl
  · rw [Map.valuesOf_del_of_ne _ (by rwa [hlogin]), Map.valuesOf_del_self _ hcookie]
  · rw [Map.valuesOf_del_self _ hlogin, Map.valuesOf_del_of_ne _ (by rw [hcookie]; exact hne.symm)]

theorem valuesOf_storedHeader_clientState {f : Bytes} (hf : f ∈ Field.clientState)
    (ri : CapturedRequest) (status : Nat) (body : Bytes) (resMap : Map) :
    valuesOf f (storedHeader ri status body resMap).entries = (valuesOf f resMap.entries).drop 1 := by
  obtain ⟨hpath, hhost, hlen, -⟩ := Field.clientState_ne f hf
  have hstripped : valuesOf f ((((resMap.setEntryRaw Field.xBouinePath ri.path).setEntryRaw
      Field.xBouineHost ri.host).del setCookie).del Field.setLogin).entries =
      (valuesOf f resMap.entries).drop 1 := by
    rw [valuesOf_del_clientState _ hf, Map.valuesOf_setEntryRaw_of_ne _ _ hhost,
      Map.valuesOf_setEntryRaw_of_ne _ _ hpath]
  unfold storedHeader
  dsimp only
  split_ifs
  · rw [Map.valuesOf_set_of_ne _ _ hlen, hstripped]
  · exact hstripped

section

variable {W : Type*} (h : Filler W)

theorem noClientState_buildObject_iff (key : Key) (ri : CapturedRequest) (res : Fetched)
    (resMap : Map) (presetTTL : Option Int) (clock now : Int) :
    NoClientState (buildObject h key ri res resMap presetTTL clock now) ↔
      ∀ f ∈ Field.clientState, (valuesOf f resMap.entries).length ≤ 1 := by
  rw [noClientState_iff]
  refine forall₂_congr fun f hf => ?_
  show valuesOf f (storedHeader ri res.statusCode res.body resMap).entries = [] ↔ _
  rw [valuesOf_storedHeader_clientState hf, List.drop_eq_nil_iff]

/-! ## The merge -/

/-- The map a response is read as has canonical names, as `InternKey` makes them. -/
def HeaderLookup.Canonical (l : HeaderLookup) : Prop :=
  ∀ e ∈ l.toMap.entries, isCanonical e.name = true

theorem valuesOf_mergeHeaders304_clientState {f : Bytes} (hf : f ∈ Field.clientState)
    (stored : Map) {resp304 : Map} (hcanonical : ∀ e ∈ resp304.entries, isCanonical e.name) :
    valuesOf f (mergeHeaders304 stored resp304).entries = valuesOf f stored.entries := by
  obtain ⟨-, -, -, hvary⟩ := Field.clientState_ne f hf
  rw [valuesOf_mergeHeaders304_of_mem stored hcanonical (Field.clientState_notMerged f hf),
    if_neg fun h => hvary h.1]

theorem noClientState_refreshStep_iff (s : Kept) {i : Refresh} (hi : i.res.header.Canonical) :
    NoClientState (refreshStep h s i).obj ↔ NoClientState s.obj := by
  rw [noClientState_iff, noClientState_iff]
  refine forall₂_congr fun f hf => ?_
  show valuesOf f (mergeHeaders304 s.obj.header i.res.header.toMap).entries = [] ↔ _
  rw [valuesOf_mergeHeaders304_clientState hf _ hi]

/-- An object that was filled and then refreshed any number of times is always free of client state
exactly if the response it was filled with has at most one entry of each field. -/
theorem no_client_state_along_iff (key : Key) (ri : CapturedRequest) (res : Fetched) (resMap : Map)
    (presetTTL : Option Int) (clock now : Int) {refreshes : List Refresh}
    (hrefreshes : ∀ i ∈ refreshes, i.res.header.Canonical) :
    Always (refreshStep h) (fun s => NoClientState s.obj)
        ⟨buildObject h key ri res resMap presetTTL clock now, clock⟩ refreshes ↔
      ∀ f ∈ Field.clientState, (valuesOf f resMap.entries).length ≤ 1 := by
  rw [← noClientState_buildObject_iff h key ri res resMap presetTTL clock now]
  refine ⟨Always.head, fun hclean => ?_⟩
  exact always_of_along (fun s i hs hi => (noClientState_refreshStep_iff h s hi).2 hs) hclean
    (along_of_mem hrefreshes _)

end

theorem no_client_state_of_one_cookie :
    Always (refreshStep plainFiller) (fun s => NoClientState s.obj)
      ⟨buildObject plainFiller ⟨0, 0⟩ plainRequest
        (fetchedWith 200 ⟨[⟨setCookie, ascii "id=1"⟩]⟩) ⟨[⟨setCookie, ascii "id=1"⟩]⟩ none 0 0, 0⟩
      [⟨fetchedWith 304 ⟨[⟨setCookie, ascii "id=2"⟩]⟩, plainRequest, 0, 0⟩] :=
  (no_client_state_along_iff plainFiller ⟨0, 0⟩ plainRequest _ _ none 0 0
    (by simp only [List.forall_mem_singleton, HeaderLookup.Canonical]; decide)).2
    (by decide)

/-- Two cookies where cookies are allowed, and three Set-Login lines, the first empty, where they
are not: each response is stored with one line of client state. -/
theorem client_state_stored :
    let timeParse : TimeParse := fun _ _ => none
    let cookies : Response :=
      ⟨200, ⟨[⟨Field.cacheControl, ascii "max-age=60"⟩, ⟨setCookie, ascii "id=1"⟩,
        ⟨setCookie, ascii "lang=en"⟩]⟩, 4, ascii "body"⟩
    let logins : Response :=
      ⟨200, ⟨[⟨Field.cacheControl, ascii "max-age=60"⟩, ⟨Field.setLogin, []⟩,
        ⟨Field.setLogin, ascii "logged-in"⟩, ⟨Field.setLogin, ascii "logged-out"⟩]⟩, 4, ascii "body"⟩
    let stored (r : Response) : Stored :=
      buildObject plainFiller ⟨0, 0⟩ plainRequest ⟨200, .fast r.header, r.body, 0⟩ r.map none 0 0
    let fill (r : Response) : FillGates.Fill :=
      ⟨.stream true true 0 [], ascii "GET", Map.empty, r, true, true⟩
    (FillGates.stores timeParse (FillGates.plainRoute true) (fill cookies) = true ∧
        valuesOf setCookie (stored cookies).header.entries = [ascii "lang=en"]) ∧
      FillGates.stores timeParse (FillGates.plainRoute false) (fill logins) = true ∧
        valuesOf Field.setLogin (stored logins).header.entries = [ascii "logged-out"] := by
  decide

end Bouine.Cache
