import Bouine.Cache.ClientState
import Bouine.Storage.ObjectCodec

/-! # The fields that are computed from the header

An object carries what the hits would otherwise parse again: its Cache-Control text, three flags of
it, and whether there is a Connection line. `buildObject` computes them, `refreshFrom304` computes
some anew, and `decodeObject` reads them back or, from older layouts, fills some in. The file says
when they are still what the header says.
-/

namespace Bouine.Storage

open Lib Lib.Transition Header Cache ObjectCodec

/-! ## The fields -/

structure GateFields where
  cacheControl : Bytes
  respNoCache : Bool
  respMustRevalidate : Bool
  hasNoCacheFields : Bool
  hasConnectionList : Bool
deriving DecidableEq

def gateFields (s : Stored) : GateFields where
  cacheControl := s.cacheControl
  respNoCache := s.respNoCache
  respMustRevalidate := s.respMustRevalidate
  hasNoCacheFields := s.hasNoCacheFields
  hasConnectionList := s.hasConnectionList

/-- The text with the directives that count: a usable CDN-Cache-Control, else all lines of
Cache-Control. -/
def controlText (hdr : Map) : Bytes :=
  if (cdnCacheControl hdr).isSome then hdr.getAll Field.cdnCacheControl
  else hdr.getAll Field.cacheControl

def gateFieldsOf (cacheControl : Bytes) (hasConnectionList : Bool) : GateFields :=
  let cc := parseCacheControl cacheControl
  { cacheControl
    respNoCache := cc.noCache
    respMustRevalidate := cc.mustRevalidate || cc.proxyRevalidate
    hasNoCacheFields := cc.noCacheFields != []
    hasConnectionList }

def recomputed (hdr : Map) : GateFields :=
  gateFieldsOf (controlText hdr) (hdr.get Field.connection != [])

def Agrees (s : Stored) : Prop := gateFields s = recomputed s.header

theorem responseDirectives_eq (hdr : Map) :
    responseDirectives hdr = parseCacheControl (controlText hdr) := by
  unfold responseDirectives controlText cdnCacheControl
  dsimp only
  split_ifs <;> simp_all

def gateSources : List Bytes := [Field.cacheControl, Field.cdnCacheControl, Field.connection]

theorem gateSources_isCanonical : ∀ f ∈ gateSources, isCanonical f = true := by decide

theorem gateSources_not_stamped : ∀ f ∈ gateSources, f ∉ Field.stamped := by decide

theorem recomputed_congr {a b : Map}
    (heq : ∀ f ∈ gateSources, valuesOf f a.entries = valuesOf f b.entries) :
    recomputed a = recomputed b := by
  have hgetAll (f : Bytes) (hf : f ∈ gateSources) : a.getAll f = b.getAll f :=
    Map.getAll_congr (gateSources_isCanonical f hf) (heq f hf)
  have hget (f : Bytes) (hf : f ∈ gateSources) : a.get f = b.get f :=
    Map.get_congr (gateSources_isCanonical f hf) (heq f hf)
  simp only [gateSources, List.forall_mem_cons] at hgetAll hget
  obtain ⟨hcc, hcdn, -⟩ := hgetAll
  have htext : controlText a = controlText b := by
    unfold controlText cdnCacheControl
    rw [hcc, hcdn]
  rw [recomputed, recomputed, htext, hget.2.2.1]

/-! ## The fill -/

section

variable {W : Type*} (h : Filler W)

theorem agrees_buildObject (key : Key) (ri : CapturedRequest) (res : Fetched) (resMap : Map)
    (presetTTL : Option Int) (clock now : Int) :
    Agrees (buildObject h key ri res resMap presetTTL clock now) := by
  have hstored : recomputed (storedHeader ri res.statusCode res.body resMap) = recomputed resMap :=
    recomputed_congr fun f hf => valuesOf_storedHeader (gateSources_not_stamped f hf) ri _ _ resMap
  have hconnection := congrArg GateFields.hasConnectionList hstored
  show gateFields _ = recomputed (storedHeader ri res.statusCode res.body resMap)
  rw [hstored]
  simp only [buildObject, responseDirectives_eq]
  rw [show (Map.get _ Field.connection != []) = _ from hconnection]
  rfl

/-! ## Refreshes -/

theorem get_eq_getAll_iff {hdr : Map} {f : Bytes} (hf : isCanonical f) :
    hdr.get f = hdr.getAll f ↔ (valuesOf f hdr.entries).length ≤ 1 := by
  rw [Map.get_of_isCanonical hf, Map.getAll_of_isCanonical hf, Map.first?]
  rcases valuesOf f hdr.entries with _ | ⟨v, _ | ⟨w, vs⟩⟩
  · simp
  · simp
  · have hcomma : ascii ", " ≠ [] := by decide
    simp [hcomma]

theorem length_valuesOf_mergeHeaders304_iff {f : Bytes} (hf : f ≠ Field.vary) (stored resp304 : Map) :
    (valuesOf f (mergeHeaders304 stored resp304).entries).length ≤ 1 ↔
      (valuesOf f stored.entries).length ≤ 1 := by
  have hset (es : List Line) : ∀ m : Map,
      (valuesOf f (es.foldl (fun m e => m.set e.name e.value) m).entries).length ≤ 1 ↔
        (valuesOf f m.entries).length ≤ 1 := by
    induction es with
    | nil => exact fun m => Iff.rfl
    | cons e es ih => exact fun m => (ih _).trans (Map.length_valuesOf_set_iff e.value e.name m)
  rw [mergeHeaders304, hset, valuesOf_mergeVary, if_neg fun h => hf h.1]

def listsFields (hdr : Map) : Bool := (responseDirectives hdr).noCacheFields != []

/-- What a 304 must leave as it is. A refresh takes the first line of Cache-Control for the whole
text and ignores CDN-Cache-Control; a list of fields and a Connection line it keeps. -/
def RefreshKeeps (stored resp304 : Map) : Prop :=
  let merged := mergeHeaders304 stored resp304
  (if (cdnCacheControl merged).isSome then
      merged.get Field.cacheControl = merged.getAll Field.cdnCacheControl
    else (valuesOf Field.cacheControl stored.entries).length ≤ 1) ∧
    listsFields merged = listsFields stored ∧
    (merged.get Field.connection = [] ↔ stored.get Field.connection = [])

instance (stored resp304 : Map) : Decidable (RefreshKeeps stored resp304) :=
  inferInstanceAs (Decidable (_ ∧ _))

theorem firstLine_eq_controlText_iff (stored resp304 : Map) :
    (mergeHeaders304 stored resp304).get Field.cacheControl =
        controlText (mergeHeaders304 stored resp304) ↔
      if (cdnCacheControl (mergeHeaders304 stored resp304)).isSome then
        (mergeHeaders304 stored resp304).get Field.cacheControl =
          (mergeHeaders304 stored resp304).getAll Field.cdnCacheControl
      else (valuesOf Field.cacheControl stored.entries).length ≤ 1 := by
  rw [controlText]
  split_ifs
  · rfl
  · rw [get_eq_getAll_iff (gateSources_isCanonical _ (by simp [gateSources])),
      length_valuesOf_mergeHeaders304_iff (by decide)]

theorem agrees_refreshFrom304_iff {s : Stored} (hs : Agrees s) (res : Fetched) (ri : CapturedRequest)
    (now : Int) :
    Agrees (refreshFrom304 h s res ri now) ↔ RefreshKeeps s.header res.header.toMap := by
  have hfields : s.hasNoCacheFields = listsFields s.header := by
    rw [listsFields, responseDirectives_eq]
    exact congrArg GateFields.hasNoCacheFields hs
  have hconnection : s.hasConnectionList = (s.header.get Field.connection != []) :=
    congrArg GateFields.hasConnectionList hs
  rw [RefreshKeeps, ← firstLine_eq_controlText_iff]
  generalize hm : mergeHeaders304 s.header res.header.toMap = merged
  have hrefreshed : gateFields (refreshFrom304 h s res ri now) =
      { gateFieldsOf (merged.get Field.cacheControl) (s.header.get Field.connection != []) with
        hasNoCacheFields := listsFields s.header } := by
    rw [← hm, ← hfields, ← hconnection]
    rfl
  have hheader : (refreshFrom304 h s res ri now).header = merged := hm
  rw [Agrees, hrefreshed, hheader, recomputed, gateFieldsOf, gateFieldsOf, GateFields.mk.injEq]
  rw [← responseDirectives_eq]
  constructor
  · rintro ⟨htext, -, -, hlist, hconn⟩
    refine ⟨htext, hlist.symm, ?_⟩
    have := congrArg (· = true) hconn
    simp only [bne_iff_ne, eq_iff_iff, not_iff_not] at this
    exact this.symm
  · rintro ⟨htext, hlist, hconn⟩
    rw [htext]
    refine ⟨rfl, ?_, ?_, hlist.symm, ?_⟩
    · rw [responseDirectives_eq]
    · rw [responseDirectives_eq]
    · rw [Bool.eq_iff_iff, bne_iff_ne, bne_iff_ne]
      exact not_congr hconn.symm

end

/-! ## Layouts -/

def keyBytes (k : Key) : FixedBytes 16 :=
  copyFixed 16 ((putUint64 k.hi).reverse ++ (putUint64 k.lo).reverse)

def keyOfBytes (b : FixedBytes 16) : Key :=
  ⟨getUint64 (b.val.take 8).reverse, getUint64 (b.val.drop 8).reverse⟩

/-- The fields of `api.Object` that the handler does not read. -/
structure Bookkeeping where
  hits : UInt64
  keepGrace : Bool
  pool : Bytes
  surrogateKeys : List Bytes

def toObject (s : Stored) (x : Bookkeeping) : Object where
  key := keyBytes s.key
  varyKey := s.varyKey
  varyValue := s.varyValue
  statusCode := Int64.ofNat s.statusCode
  ttl := Int64.ofInt s.ttl
  staleWhileRevalidate := Int64.ofInt s.staleWhileRevalidate
  staleIfError := Int64.ofInt s.staleIfError
  storedAt := s.storedAt
  lastModified := s.lastModified
  hits := x.hits
  etag := s.etag
  keepGrace := x.keepGrace
  pool := x.pool
  cacheControl := s.cacheControl
  originAge := Int64.ofInt s.originAge
  hasDate := s.hasDate
  respNoCache := s.respNoCache
  respMustRevalidate := s.respMustRevalidate
  hasConnectionList := s.hasConnectionList
  hasNoCacheFields := s.hasNoCacheFields
  pairedKey := keyBytes (s.pairedKey.getD ⟨0, 0⟩)
  header := s.header
  surrogateKeys := x.surrogateKeys
  body := s.body
  bodySize := Int64.ofInt s.bodySize

def ofObject (o : Object) : Stored where
  key := keyOfBytes o.key
  pairedKey := if keyOfBytes o.pairedKey = ⟨0, 0⟩ then none else some (keyOfBytes o.pairedKey)
  statusCode := o.statusCode.toInt.toNat
  header := o.header
  body := o.body
  bodySize := o.bodySize.toInt
  storedAt := o.storedAt
  ttl := o.ttl.toInt
  originAge := o.originAge.toInt
  staleWhileRevalidate := o.staleWhileRevalidate.toInt
  staleIfError := o.staleIfError.toInt
  etag := o.etag
  lastModified := o.lastModified
  cacheControl := o.cacheControl
  varyValue := o.varyValue
  varyKey := o.varyKey
  hasDate := o.hasDate
  respNoCache := o.respNoCache
  respMustRevalidate := o.respMustRevalidate
  hasConnectionList := o.hasConnectionList
  hasNoCacheFields := o.hasNoCacheFields

/-- What a layout must find. Those before the sixth have neither text nor flags, and only the flags
in Cache-Control are filled in. -/
def CarryKeeps (ver : UInt8) (hdr : Map) : Prop :=
  objCodecVersionV6 ≤ ver ∨ controlText hdr = [] ∧ hdr.get Field.connection = []

instance (ver : UInt8) (hdr : Map) : Decidable (CarryKeeps ver hdr) :=
  inferInstanceAs (Decidable (_ ∨ _))

theorem header_carriedAt (ver : UInt8) (o : Object) :
    (carriedAt ver o).header = o.header.sortEntries := by
  unfold carriedAt backfillPreV6Flags
  dsimp only
  split_ifs <;> rfl

theorem gateFields_carried {ver : UInt8} (hver : objCodecVersionV6 ≤ ver) (s : Stored)
    (x : Bookkeeping) : gateFields (ofObject (carriedAt ver (toObject s x))) = gateFields s := by
  simp only [carriedAt, if_neg (UInt8.not_lt.2 hver), inLayout, if_pos hver]
  rfl

theorem gateFields_backfillPreV6Flags {o : Object}
    (hflags : gateFields (ofObject o) = gateFieldsOf [] false) :
    gateFields (ofObject (backfillPreV6Flags o)) =
      { gateFieldsOf (o.header.getAll Field.cacheControl) false with cacheControl := [] } := by
  have htext : o.cacheControl = [] := congrArg GateFields.cacheControl hflags
  have hconnection : o.hasConnectionList = false := congrArg GateFields.hasConnectionList hflags
  show gateFields (ofObject (if o.header.getAll Field.cacheControl = [] then _ else _)) = _
  split_ifs with hcc
  · rw [hcc]
    exact hflags
  · rw [gateFieldsOf, ← htext, ← hconnection]
    rfl

theorem gateFields_backfilled {ver : UInt8} (hver : ver < objCodecVersionV6) (s : Stored)
    (x : Bookkeeping) :
    gateFields (ofObject (carriedAt ver (toObject s x))) =
      { gateFieldsOf (s.header.getAll Field.cacheControl) false with cacheControl := [] } := by
  have hsorted : s.header.sortEntries.getAll Field.cacheControl =
      s.header.getAll Field.cacheControl :=
    Map.getAll_congr (gateSources_isCanonical _ (by simp [gateSources]))
      (Map.valuesOf_sortEntries _ _)
  rw [← hsorted]
  simp only [carriedAt, if_pos hver, inLayout, if_neg (UInt8.not_le.2 hver)]
  exact gateFields_backfillPreV6Flags rfl

theorem controlText_eq_nil_iff (hdr : Map) :
    controlText hdr = [] ↔ cdnCacheControl hdr = none ∧ hdr.getAll Field.cacheControl = [] := by
  unfold controlText
  cases hcdn : cdnCacheControl hdr with
  | none => simp
  | some d =>
    have hne : hdr.getAll Field.cdnCacheControl ≠ [] := by
      intro hnil
      simp [cdnCacheControl, hnil] at hcdn
    simp [hne]

theorem agrees_carried_iff {s : Stored} (hs : Agrees s) (ver : UInt8) (x : Bookkeeping) :
    Agrees (ofObject (carriedAt ver (toObject s x))) ↔ CarryKeeps ver s.header := by
  have hheader : recomputed (ofObject (carriedAt ver (toObject s x))).header =
      recomputed s.header := by
    show recomputed (carriedAt ver (toObject s x)).header = _
    rw [header_carriedAt]
    exact recomputed_congr fun f _ => Map.valuesOf_sortEntries f s.header
  rw [Agrees, hheader, CarryKeeps]
  by_cases hver : objCodecVersionV6 ≤ ver
  · rw [gateFields_carried hver]
    exact iff_of_true hs (.inl hver)
  · rw [gateFields_backfilled (UInt8.not_le.1 hver), or_iff_right hver]
    constructor
    · intro heq
      have htext : [] = controlText s.header := congrArg GateFields.cacheControl heq
      have hconnection : false = (s.header.get Field.connection != []) :=
        congrArg GateFields.hasConnectionList heq
      exact ⟨htext.symm, by simpa using hconnection.symm⟩
    · rintro ⟨htext, hconnection⟩
      rw [recomputed, htext, hconnection, ((controlText_eq_nil_iff _).1 htext).2]
      rfl

/-! ## Runs -/

structure Sized (o : Object) : Prop where
  texts : ∀ s ∈ [o.varyKey, o.varyValue, o.etag, o.pool, o.cacheControl, o.body], s.length < 2 ^ 63
  header : o.header.entries.length < 2 ^ 63
  entries : ∀ e ∈ o.header.entries, e.name.length < 2 ^ 63 ∧ e.value.length < 2 ^ 63
  surrogates : o.surrogateKeys.length < 2 ^ 63
  surrogateKeys : ∀ s ∈ o.surrogateKeys, s.length < 2 ^ 63

def CanonicalNames (hdr : Map) : Prop := ∀ e ∈ hdr.entries, isCanonical e.name = true

theorem Sized.valid {o : Object} (hsized : Sized o) (hnames : CanonicalNames o.header) : ObjectCodec.Valid o :=
  ⟨hsized.texts, hsized.header, hsized.entries, hnames, hsized.surrogates, hsized.surrogateKeys⟩

/-- What happens to an object: a 304 refreshes it, or it is written in one of the layouts and read
back. -/
inductive Event where
  | refresh (r : Refresh)
  | carry (ver : { ver : UInt8 // ver ∈ supportedVersions }) (x : Bookkeeping)

section

variable {W : Type*} (h : Filler W)

def next (s : Stored) : Event → Stored
  | .refresh r => refreshFrom304 h s r.res r.ri r.now
  | .carry ver x =>
    match decodeObject (encodeObjectAt ver.val (toObject s x)) with
    | .ok o => ofObject o
    | .error _ => s

def Event.Fits (s : Stored) : Event → Prop
  | .refresh _ => True
  | .carry _ x => Sized (toObject s x)

def Event.Keeps (s : Stored) : Event → Prop
  | .refresh r => RefreshKeeps s.header r.res.header.toMap
  | .carry ver _ => CarryKeeps ver.val s.header

instance (s : Stored) : DecidablePred (Event.Keeps s)
  | .refresh r => inferInstanceAs (Decidable (RefreshKeeps s.header r.res.header.toMap))
  | .carry ver _ => inferInstanceAs (Decidable (CarryKeeps ver.val s.header))

variable {s : Stored}

theorem next_carry (hnames : CanonicalNames s.header)
    (ver : { ver : UInt8 // ver ∈ supportedVersions }) {x : Bookkeeping}
    (hsized : Sized (toObject s x)) :
    next h s (.carry ver x) = ofObject (carriedAt ver.val (toObject s x)) := by
  rw [next, decodeObject_encodeObjectAt ver.property (hsized.valid hnames)]

theorem canonicalNames_storedHeader {resMap : Map} (hnames : CanonicalNames resMap)
    (ri : CapturedRequest) (status : Nat) (body : Bytes) :
    CanonicalNames (storedHeader ri status body resMap) := by
  have hpath : isCanonical Field.xBouinePath = true := by decide
  have hhost : isCanonical Field.xBouineHost = true := by decide
  have hstamped := Map.canonical_setEntryRaw (Map.canonical_setEntryRaw hnames hpath ri.path)
    hhost ri.host
  have hclean := Map.canonical_del (Map.canonical_del hstamped setCookie) Field.setLogin
  unfold storedHeader
  dsimp only
  split_ifs
  · exact Map.canonical_set hclean _ _
  · exact hclean

theorem canonicalNames_mergeHeaders304 {stored : Map} (hnames : CanonicalNames stored)
    (resp304 : Map) : CanonicalNames (mergeHeaders304 stored resp304) := by
  have hvary : CanonicalNames (if resp304.has Field.vary then
      (valuesOf Field.vary resp304.entries).foldl (·.appendEntry Field.vary) (withoutVary stored)
      else stored) := by
    split_ifs
    · refine List.foldlRecOn _ _ (fun e he => hnames e (List.mem_filter.1 he).1) ?_
      intro m hm v _
      exact Map.canonical_appendEntry hm _ v
    · exact hnames
  exact List.foldlRecOn _ _ hvary fun m hm e _ => Map.canonical_set hm e.name e.value

theorem canonicalNames_next (hnames : CanonicalNames s.header) {e : Event}
    (hfits : e.Fits s) : CanonicalNames (next h s e).header := by
  cases e with
  | refresh r => exact canonicalNames_mergeHeaders304 hnames _
  | carry ver x =>
    rw [next_carry h hnames ver hfits]
    show CanonicalNames (carriedAt ver.val (toObject s x)).header
    rw [header_carriedAt]
    intro e he
    exact hnames e ((List.perm_insertionSort Map.nameLE _).mem_iff.1 he)

theorem agrees_next_iff (hnames : CanonicalNames s.header) {e : Event}
    (hfits : e.Fits s) (hs : Agrees s) : Agrees (next h s e) ↔ e.Keeps s := by
  cases e with
  | refresh r => exact agrees_refreshFrom304_iff h hs r.res r.ri r.now
  | carry ver x =>
    rw [next_carry h hnames ver hfits]
    exact agrees_carried_iff hs ver.val x

/-- From the fill on, through whatever refreshes and layouts, the fields of an object are at every
point what its header says exactly if every event leaves alone what it does not compute. -/
theorem derived_fields_agree_iff (key : Key) (ri : CapturedRequest) (res : Fetched) {resMap : Map}
    (hnames : CanonicalNames resMap) (presetTTL : Option Int) (clock now : Int) {events : List Event}
    (hfits : Along (next h) Event.Fits (buildObject h key ri res resMap presetTTL clock now) events) :
    Always (next h) Agrees (buildObject h key ri res resMap presetTTL clock now) events ↔
      Along (next h) Event.Keeps (buildObject h key ri res resMap presetTTL clock now) events :=
  always_iff_along_within (W := fun s => CanonicalNames s.header)
    (fun _ _ hs hfit => canonicalNames_next h hs hfit)
    (fun _ _ hs hfit hagrees => agrees_next_iff h hs hfit hagrees)
    (canonicalNames_storedHeader hnames ri _ _) hfits
    (agrees_buildObject h key ri res resMap presetTTL clock now)

end

/-! ## Objects whose fields drift -/

def refreshWith (hdr : Map) : Event := .refresh ⟨fetchedWith 304 hdr, plainRequest, 0, 0⟩

def noBookkeeping : Bookkeeping := ⟨0, false, [], []⟩

def carryV5 : Event := .carry ⟨objCodecVersionV5, by decide⟩ noBookkeeping

def carryV6 : Event := .carry ⟨objCodecVersionV6, by decide⟩ noBookkeeping

def splitControl : Map :=
  ⟨[⟨Field.cacheControl, ascii "max-age=60"⟩, ⟨Field.cacheControl, ascii "must-revalidate"⟩]⟩

def targetedControl : Map :=
  ⟨[⟨Field.cacheControl, ascii "max-age=60"⟩,
    ⟨Field.cdnCacheControl, ascii "max-age=60, must-revalidate"⟩]⟩

def connectionHeader : Map :=
  ⟨[⟨Field.cacheControl, ascii "max-age=60"⟩, ⟨Field.connection, ascii "X-Secret"⟩]⟩

/-- An empty 304 takes must-revalidate away from the second line or the targeted field, new lists of
fields and Connection lines are not seen, and the fifth layout loses the text, the Connection line
and what the targeted field says. -/
theorem derived_fields_drift :
    let after (hdr : Map) (e : Event) : Stored := next plainFiller (filled hdr 0).obj e
    let fields (hdr : Map) (e : Event) : GateFields × GateFields :=
      (gateFields (after hdr e), recomputed (after hdr e).header)
    let listed := refreshWith ⟨[⟨Field.cacheControl, ascii "no-cache=\"Set-Cookie\""⟩]⟩
    fields splitControl (refreshWith Map.empty) =
        (gateFieldsOf (ascii "max-age=60") false,
          gateFieldsOf (ascii "max-age=60, must-revalidate") false) ∧
      fields targetedControl (refreshWith Map.empty) =
        (gateFieldsOf (ascii "max-age=60") false,
          gateFieldsOf (ascii "max-age=60, must-revalidate") false) ∧
      ((after minuteHeader listed).hasNoCacheFields = false ∧
        (recomputed (after minuteHeader listed).header).hasNoCacheFields = true) ∧
      fields minuteHeader (refreshWith ⟨[⟨Field.connection, ascii "X-Secret"⟩]⟩) =
        (gateFieldsOf (ascii "max-age=60") false, gateFieldsOf (ascii "max-age=60") true) ∧
      fields connectionHeader carryV5 =
        (gateFieldsOf [] false, gateFieldsOf (ascii "max-age=60") true) ∧
      fields targetedControl carryV5 =
        (gateFieldsOf [] false, gateFieldsOf (ascii "max-age=60, must-revalidate") false) := by
  decide +kernel

/-- One line of Cache-Control stays in agreement through a 304 and the sixth layout. -/
theorem one_line_fields_agree :
    Always (next plainFiller) Agrees (filled minuteHeader 0).obj
      [refreshWith ⟨[⟨Field.cacheControl, ascii "max-age=90"⟩]⟩, carryV6] := by
  have hnames : CanonicalNames minuteHeader := by
    unfold CanonicalNames
    decide
  refine (derived_fields_agree_iff plainFiller ⟨0, 0⟩ plainRequest (fetchedWith 200 minuteHeader)
    hnames none 0 0 ?_).2 (by decide)
  exact ⟨trivial, ⟨by decide, by decide, by decide, by decide, by decide⟩,
    trivial⟩

end Bouine.Storage
