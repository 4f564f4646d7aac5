import Bouine.Header.Map
import Bouine.Cache.VariantSets

/-! # Streaming fills

`teeStreamToClient` (`internal/cache/stream.go`) copies a body from the origin to the client and
keeps it for the flight's followers and the store. A failed write or read, the limit for one
response and that for all streams end the copying or the keeping. `settleTeeFill` then decides what
the followers get and what is stored.
-/

namespace Bouine.Cache.TeeFill

open Lib Header Api List Option

/-! ## The loop -/

structure Limits where
  maxResponseBytes : Int
  maxObjectSize : Int
  maxStreamingBufferBytes : Int

def defaultMaxResponseBytes : Int := 4 * 2 ^ 20

def Limits.bufCap (l : Limits) : Int :=
  if l.maxResponseBytes ≤ 0 then defaultMaxResponseBytes else l.maxResponseBytes

inductive ReadError where
  | eof
  | broken
deriving DecidableEq

/-- One round of the loop: what `Read` returns, whether the client takes it, and the bytes all
streams hold when the limits are checked. -/
structure Round where
  chunk : Bytes
  err : Option ReadError
  writeFails : Bool
  level : Int

structure Tee where
  totalBytes : Nat
  buf : Bytes
  cacheExceeded : Bool
deriving DecidableEq

def Tee.start : Tee := ⟨0, [], false⟩

def shouldStopBuffering (l : Limits) (bufLen chunkLen totalBytes : Nat) (level : Int) : Bool :=
  l.bufCap < bufLen + chunkLen ||
    (0 < l.maxResponseBytes && l.maxResponseBytes < totalBytes) ||
    (0 < l.maxStreamingBufferBytes && l.maxStreamingBufferBytes ≤ level)

def Tee.keep (l : Limits) (t : Tee) (r : Round) : Tee :=
  let totalBytes := t.totalBytes + r.chunk.length
  if t.cacheExceeded then { t with totalBytes }
  else if shouldStopBuffering l t.buf.length r.chunk.length totalBytes r.level then
    { t with totalBytes, cacheExceeded := true }
  else { t with totalBytes, buf := t.buf ++ r.chunk }

def Tee.take (l : Limits) (t : Tee) (r : Round) : Tee := if r.chunk = [] then t else t.keep l r

/-- The loop, and whether it ended with the body; `none` while the origin has more. -/
def loop (l : Limits) (t : Tee) : List Round → Option (Tee × Bool)
  | [] => none
  | r :: rs =>
    if r.chunk ≠ [] ∧ r.writeFails then
      some ({ t with totalBytes := t.totalBytes + r.chunk.length }, false)
    else
      match r.err with
      | some e => some (t.take l r, e = .eof)
      | none => loop l (t.take l r) rs

/-! ## Settling -/

inductive FetchError where
  /-- `ErrStreamUnshareable`: the follower has to fetch for itself -/
  | streamUnshareable
deriving DecidableEq

structure FetchResult where
  statusCode : Nat
  header : Map
  body : Bytes
deriving DecidableEq

def carriesClientState (h : Map) : Bool := h.has setCookie || h.has (ascii "Set-Login")

/-- What a fill leaves: the flight's result, the objects stored here and those sent to their owner.
-/
structure Settled (Key : Type) where
  published : Except FetchError FetchResult
  puts : List (Key × Object Key)
  forwarded : List (Object Key)

def publishFillVerdict (res : FetchResult) : Except FetchError FetchResult :=
  if carriesClientState res.header then .error .streamUnshareable else .ok res

variable {Key Header : Type} [DecidableEq Key]

/-- `storeObject`: only the owner of a key stores. -/
def putAt (h : VariantSets.Handler Key Header) (key : Key) (obj : Object Key) :
    List (Key × Object Key) :=
  if h.stores key then [(key, obj)] else []

/-- The request's keys and header, and the effective Vary of the response. -/
structure Target (Key Header : Type) where
  primaryKey : Key
  vary : String
  reqHeader : Header

def Target.storeKey (h : VariantSets.Handler Key Header) (g : Target Key Header) : Key :=
  VariantSets.storeKeyOf h g.primaryKey g.vary g.reqHeader

def storeStreamedObject (h : VariantSets.Handler Key Header) (g : Target Key Header)
    (res : FetchResult) : Object Key :=
  let obj := VariantSets.buildObject h (g.storeKey h) g.vary g.reqHeader res.body
  if g.storeKey h = g.primaryKey then obj else { obj with pairedKey := some g.primaryKey }

def resolverOf (h : VariantSets.Handler Key Header) (g : Target Key Header) (obj : Object Key) :
    List (Object Key) :=
  if g.storeKey h = g.primaryKey then [] else [VariantSets.buildResolver obj g.primaryKey]

def settleTeeFill (l : Limits) (h : VariantSets.Handler Key Header) (g : Target Key Header)
    (res : FetchResult) (bodyComplete cacheExceeded : Bool) (totalBytes : Nat) : Settled Key :=
  if !bodyComplete then ⟨.error .streamUnshareable, [], []⟩
  else
    let published := publishFillVerdict res
    if cacheExceeded || (0 < l.maxObjectSize && l.maxObjectSize < totalBytes) then
      ⟨published, [], []⟩
    else
      let obj := storeStreamedObject h g res
      ⟨published, putAt h (g.storeKey h) obj ++ (resolverOf h g obj).flatMap (putAt h g.primaryKey),
        obj :: resolverOf h g obj⟩

def teeStreamToClient (l : Limits) (h : VariantSets.Handler Key Header) (g : Target Key Header)
    (statusCode : Nat) (header : Map) (rs : List Round) : Option (Settled Key) :=
  (loop l Tee.start rs).map fun (t, bodyComplete) =>
    settleTeeFill l h g ⟨statusCode, header, t.buf⟩ bodyComplete t.cacheExceeded t.totalBytes

/-! ## What the origin sent -/

def cleanBody : List Round → Option Bytes
  | [] => none
  | r :: rs =>
    if r.chunk ≠ [] ∧ r.writeFails then none
    else
      match r.err with
      | some .eof => some r.chunk
      | some .broken => none
      | none => (cleanBody rs).map (r.chunk ++ ·)

/-- No chunk of the body meets a limit, `n` bytes having come before. -/
def Fits (l : Limits) (n : Nat) : List Round → Prop
  | [] => True
  | r :: rs =>
    (r.chunk = [] ∨
      shouldStopBuffering l n r.chunk.length (n + r.chunk.length) r.level = false) ∧
    (r.err = none → Fits l (n + r.chunk.length) rs)

instance decidableFits (l : Limits) : ∀ n rs, Decidable (Fits l n rs)
  | _, [] => inferInstanceAs (Decidable True)
  | n, r :: rs =>
    have := decidableFits l (n + r.chunk.length) rs
    inferInstanceAs (Decidable (_ ∧ (_ → _)))

/-! ## The copy -/

section

variable {l : Limits} {t t' : Tee} {rs : List Round}

theorem take_exceeded (ht : t.cacheExceeded) (r : Round) :
    (t.take l r).cacheExceeded ∧ (t.take l r).buf = t.buf := by
  unfold Tee.take Tee.keep
  split_ifs <;> simp [ht]

variable {complete : Bool}

theorem loop_exceeded (ht : t.cacheExceeded)
    (h : loop l t rs = some (t', complete)) : t'.cacheExceeded ∧ t'.buf = t.buf := by
  induction rs generalizing t with
  | nil => simp [loop] at h
  | cons r rs ih =>
    obtain ⟨hex, hbuf⟩ := take_exceeded (l := l) ht r
    rw [loop] at h
    split_ifs at h
    · obtain ⟨rfl, -⟩ := Prod.mk.inj (some.inj h)
      exact ⟨ht, rfl⟩
    · cases herr : r.err with
      | some e =>
        rw [herr] at h
        obtain ⟨rfl, -⟩ := Prod.mk.inj (some.inj h)
        exact ⟨hex, hbuf⟩
      | none =>
        rw [herr] at h
        obtain ⟨hex', hbuf'⟩ := ih hex h
        exact ⟨hex', hbuf'.trans hbuf⟩

structure Whole (t : Tee) : Prop where
  kept : t.cacheExceeded = false
  counted : t.totalBytes = t.buf.length

theorem Whole.take_cases (ht : Whole t) (l : Limits) (r : Round) :
    let keeps := r.chunk = [] ∨
      shouldStopBuffering l t.totalBytes r.chunk.length (t.totalBytes + r.chunk.length) r.level = false
    keeps ∧ Whole (t.take l r) ∧ (t.take l r).buf = t.buf ++ r.chunk ∧
        (t.take l r).totalBytes = t.totalBytes + r.chunk.length ∨
      ¬ keeps ∧ (t.take l r).cacheExceeded ∧ (t.take l r).buf = t.buf ∧ 0 < r.chunk.length := by
  unfold Tee.take
  split_ifs with hempty
  · exact .inl ⟨.inl hempty, ht, by simp [hempty], by simp [hempty]⟩
  · cases hstop : shouldStopBuffering l t.totalBytes r.chunk.length (t.totalBytes + r.chunk.length)
      r.level with
    | false =>
      have hkeep : t.keep l r = ⟨t.totalBytes + r.chunk.length, t.buf ++ r.chunk, false⟩ := by
        simp [Tee.keep, ht.kept, ← ht.counted, hstop]
      rw [hkeep]
      exact .inl ⟨.inr rfl, ⟨rfl, by simp [ht.counted]⟩, rfl, rfl⟩
    | true =>
      have hkeep : t.keep l r = ⟨t.totalBytes + r.chunk.length, t.buf, true⟩ := by
        simp [Tee.keep, ← ht.counted, hstop]
      rw [hkeep]
      exact .inr ⟨by simp [hempty], rfl, rfl, length_pos_iff.2 hempty⟩

theorem loop_complete (t : Tee) : (∃ t', loop l t rs = some (t', true)) ↔ (cleanBody rs).isSome := by
  induction rs generalizing t with
  | nil => simp [loop, cleanBody]
  | cons r rs ih =>
    rw [loop, cleanBody]
    split_ifs
    · simp
    · cases herr : r.err with
      | some e => cases e <;> simp
      | none => simp [ih]

/-- A body that comes in whole is kept whole, or some of it is dropped at a limit. -/
theorem loop_clean {body : Bytes} (hbody : cleanBody rs = some body) (ht : Whole t)
    (h : loop l t rs = some (t', complete)) :
    Fits l t.totalBytes rs ∧ t'.cacheExceeded = false ∧ t'.buf = t.buf ++ body ∨
      ¬ Fits l t.totalBytes rs ∧ t'.cacheExceeded ∧ t'.buf.length < (t.buf ++ body).length := by
  induction rs generalizing t body with
  | nil => simp [loop] at h
  | cons r rs ih =>
    rw [loop] at h
    rw [cleanBody] at hbody
    split_ifs at h hbody
    cases herr : r.err with
    | some e =>
      rw [herr] at h hbody
      obtain ⟨rfl, -⟩ := Prod.mk.inj (some.inj h)
      cases e with
      | broken => simp at hbody
      | eof =>
        cases hbody
        rcases ht.take_cases l r with ⟨hr, hwhole, hbuf, -⟩ | ⟨hr, hex, hbuf, hpos⟩
        · exact .inl ⟨⟨hr, by simp [herr]⟩, hwhole.kept, hbuf⟩
        · rw [hbuf, length_append]
          exact .inr ⟨fun hfits => hr hfits.1, hex, by omega⟩
    | none =>
      rw [herr] at h hbody
      obtain ⟨rest, hclean, rfl⟩ := map_eq_some_iff.1 hbody
      rcases ht.take_cases l r with ⟨hr, hwhole, hbuf, htotal⟩ | ⟨hr, hex, hbuf, hpos⟩
      · have hrest := ih hclean hwhole h
        rw [htotal, hbuf, append_assoc] at hrest
        rcases hrest with ⟨hfits, hkept⟩ | ⟨hfits, hdropped⟩
        · exact .inl ⟨⟨hr, fun _ => hfits⟩, hkept⟩
        · exact .inr ⟨fun h => hfits (h.2 herr), hdropped⟩
      · -- the chunk is dropped, and nothing after it is kept
        obtain ⟨hex', hbuf'⟩ := loop_exceeded hex h
        rw [hbuf', hbuf, length_append, length_append]
        exact .inr ⟨fun hfits => hr hfits.1, hex', by omega⟩

end

/-! ## What is shared and what is stored -/

def Holds (body : Bytes) (obj : Object Key) : Prop :=
  obj.body = body ∨ obj.isVaryResolver = true ∧ obj.body = []

structure BodiesComplete (rs : List Round) (s : Settled Key) : Prop where
  published : ∀ res, s.published = .ok res → cleanBody rs = some res.body
  stored : ∀ e ∈ s.puts, ∃ body, cleanBody rs = some body ∧ Holds body e.2
  forwarded : ∀ obj ∈ s.forwarded, ∃ body, cleanBody rs = some body ∧ Holds body obj

section

variable {l : Limits} {h : VariantSets.Handler Key Header} {g : Target Key Header}

theorem body_storeStreamedObject (res : FetchResult) :
    (storeStreamedObject h g res).body = res.body := by
  unfold storeStreamedObject
  split_ifs <;> rfl

theorem isVaryResolver_buildResolver (hkey : g.storeKey h ≠ g.primaryKey) (res : FetchResult) :
    (VariantSets.buildResolver (storeStreamedObject h g res) g.primaryKey).isVaryResolver = true := by
  have hvary : g.vary ≠ "" := by
    intro hvary
    exact hkey (by rw [Target.storeKey, VariantSets.storeKeyOf, if_pos hvary])
  simp [Object.isVaryResolver, VariantSets.buildResolver, storeStreamedObject, hkey,
    VariantSets.buildObject, hvary]

theorem holds_of_mem_settle (res : FetchResult) (complete exceeded : Bool) (totalBytes : Nat) :
    (∀ e ∈ (settleTeeFill l h g res complete exceeded totalBytes).puts, Holds res.body e.2) ∧
      ∀ obj ∈ (settleTeeFill l h g res complete exceeded totalBytes).forwarded,
        Holds res.body obj := by
  have hput : ∀ {key : Key} {obj : Object Key} {e}, e ∈ putAt h key obj → e.2 = obj := by
    intro key obj e he
    unfold putAt at he
    split_ifs at he
    · rw [mem_singleton.1 he]
    · simp at he
  have hobj : Holds res.body (storeStreamedObject h g res) := .inl (body_storeStreamedObject res)
  have hresolver : ∀ obj ∈ resolverOf h g (storeStreamedObject h g res), Holds res.body obj := by
    intro obj hobj
    unfold resolverOf at hobj
    split_ifs at hobj with hkey
    · simp at hobj
    · rw [mem_singleton.1 hobj]
      exact .inr ⟨isVaryResolver_buildResolver hkey res, rfl⟩
  unfold settleTeeFill
  split_ifs
  · simp
  · simp
  · constructor
    · intro e he
      rcases mem_append.1 he with he | he
      · rw [hput he]
        exact hobj
      · obtain ⟨obj, hmem, he⟩ := mem_flatMap.1 he
        rw [hput he]
        exact hresolver obj hmem
    · exact forall_mem_cons.2 ⟨hobj, hresolver⟩

theorem settle_published (res : FetchResult) (complete exceeded : Bool) (totalBytes : Nat) :
    (settleTeeFill l h g res complete exceeded totalBytes).published =
      if complete then publishFillVerdict res else .error .streamUnshareable := by
  unfold settleTeeFill
  cases complete
  · rfl
  · simp only [Bool.not_true, Bool.false_eq_true, if_false]
    split_ifs <;> rfl

theorem settle_stores_nothing (res : FetchResult) {complete exceeded : Bool} (totalBytes : Nat)
    (hno : complete = false ∨ exceeded) :
    (settleTeeFill l h g res complete exceeded totalBytes).puts = [] ∧
      (settleTeeFill l h g res complete exceeded totalBytes).forwarded = [] := by
  unfold settleTeeFill
  rcases hno with rfl | rfl
  · exact ⟨rfl, rfl⟩
  · simp only [Bool.true_or]
    split_ifs <;> exact ⟨rfl, rfl⟩

end

section

variable {l : Limits} {h : VariantSets.Handler Key Header} {g : Target Key Header}
  {statusCode : Nat} {header : Map} {rs : List Round}

theorem whole_start : Whole Tee.start := ⟨rfl, rfl⟩

theorem buf_eq_of_kept {t : Tee} (hloop : loop l Tee.start rs = some (t, true))
    (hkept : t.cacheExceeded = false) : cleanBody rs = some t.buf := by
  obtain ⟨body, hbody⟩ := isSome_iff_exists.1 ((loop_complete _).1 ⟨t, hloop⟩)
  rcases loop_clean hbody whole_start hloop with ⟨-, -, hbuf⟩ | ⟨-, hex, -⟩
  · rw [hbuf]
    exact hbody
  · rw [hkept] at hex
    cases hex

theorem stored_bodies_complete {s : Settled Key}
    (hs : teeStreamToClient l h g statusCode header rs = some s) :
    (∀ e ∈ s.puts, ∃ body, cleanBody rs = some body ∧ Holds body e.2) ∧
      ∀ obj ∈ s.forwarded, ∃ body, cleanBody rs = some body ∧ Holds body obj := by
  obtain ⟨⟨t, complete⟩, hloop, rfl⟩ := map_eq_some_iff.1 hs
  by_cases hno : complete = false ∨ t.cacheExceeded = true
  · obtain ⟨hputs, hforwarded⟩ := settle_stores_nothing (l := l) (h := h) (g := g)
      ⟨statusCode, header, t.buf⟩ t.totalBytes hno
    simp [hputs, hforwarded]
  · simp only [not_or, Bool.not_eq_false, Bool.not_eq_true] at hno
    obtain ⟨rfl, hkept⟩ := hno
    have hbody := buf_eq_of_kept hloop hkept
    obtain ⟨hputs, hforwarded⟩ := holds_of_mem_settle (l := l) (h := h) (g := g)
      ⟨statusCode, header, t.buf⟩ true t.cacheExceeded t.totalBytes
    exact ⟨fun e he => ⟨_, hbody, hputs e he⟩, fun obj hobj => ⟨_, hbody, hforwarded obj hobj⟩⟩

end

/-- A fill hands on only whole bodies exactly if the body does not end cleanly, is not shared for
the client's state in its header, or meets no limit. -/
theorem shared_and_stored_bodies_complete_iff (l : Limits) (h : VariantSets.Handler Key Header)
    (g : Target Key Header) (statusCode : Nat) (header : Map) (rs : List Round) :
    (∀ s, teeStreamToClient l h g statusCode header rs = some s → BodiesComplete rs s) ↔
      cleanBody rs = none ∨ carriesClientState header = true ∨ Fits l 0 rs := by
  constructor
  · intro hall
    by_contra hcond
    simp only [not_or, Bool.not_eq_true] at hcond
    obtain ⟨hclean, hstate, hfits⟩ := hcond
    obtain ⟨body, hbody⟩ := ne_none_iff_exists'.1 hclean
    obtain ⟨t, hloop⟩ := (loop_complete (l := l) Tee.start).2 (by rw [hbody]; rfl)
    obtain ⟨-, -, hshort⟩ :=
      (loop_clean hbody whole_start hloop).resolve_left fun h => hfits h.1
    -- the copy is published although it is short
    have hverdict : (settleTeeFill l h g ⟨statusCode, header, t.buf⟩ true t.cacheExceeded
        t.totalBytes).published = .ok ⟨statusCode, header, t.buf⟩ := by
      rw [settle_published, if_pos rfl, publishFillVerdict, hstate, if_neg (by simp)]
    have hpublished := (hall _ (by rw [teeStreamToClient, hloop]; rfl)).published _ hverdict
    cases hpublished.symm.trans hbody
    exact lt_irrefl _ hshort
  · intro hcond s hs
    obtain ⟨hputs, hforwarded⟩ := stored_bodies_complete hs
    refine ⟨?_, hputs, hforwarded⟩
    intro res hres
    obtain ⟨⟨t, complete⟩, hloop, rfl⟩ := map_eq_some_iff.1 hs
    rw [settle_published] at hres
    split_ifs at hres with hcomplete
    rw [hcomplete] at hloop
    rw [publishFillVerdict] at hres
    split_ifs at hres with hstate
    cases hres
    obtain ⟨body, hbody⟩ := isSome_iff_exists.1 ((loop_complete _).1 ⟨t, hloop⟩)
    rcases hcond with hnone | hclient | hfits
    · rw [hbody] at hnone
      cases hnone
    · exact absurd hclient hstate
    · obtain ⟨-, hkept, -⟩ :=
        (loop_clean hbody whole_start hloop).resolve_right fun h => h.1 hfits
      exact buf_eq_of_kept hloop hkept

def soloHandler : VariantSets.Handler Unit Unit := ⟨none, 1, false, fun _ _ _ => (), fun _ _ => ""⟩

/-- Seven bytes under a limit of four: the followers get the first three. -/
theorem limit_publishes_prefix :
    cleanBody [⟨ascii "abc", none, false, 0⟩, ⟨ascii "defg", some .eof, false, 0⟩] =
        some (ascii "abcdefg") ∧
      (teeStreamToClient ⟨4, 0, 0⟩ soloHandler ⟨(), "", ()⟩ 200 Map.empty
        [⟨ascii "abc", none, false, 0⟩, ⟨ascii "defg", some .eof, false, 0⟩]).map
          Settled.published = some (.ok ⟨200, Map.empty, ascii "abc"⟩) := by
  decide

end Bouine.Cache.TeeFill
