import Bouine.Cache.DownstreamCap
import Bouine.Cache.Engine
import Bouine.Cache.ResponseRewrites
import Bouine.Lib.GrowingBuffer
import Bouine.Lib.Transition

/-! # Heads of the fast path and the buffers they are composed in

`internal/cache/fastpath.go`: the head of a hit is appended piece by piece to a buffer from a pool,
and is not served if the buffer had to grow too far. First the pieces, then the pool over whole
runs, with every buffer that may be handed out.
-/

namespace Bouine.Cache

open Lib Header List Nat

/-! ## The pieces of a head -/

namespace FastHead

/-- What the head is rendered with: `int64(d.Seconds())`, by way of a float, and the date of a
second. -/
structure Rendering where
  seconds : Int → Int
  httpDate : Int → Bytes

structure Hit where
  now : Int
  stale : Bool
  /-- the client asked for `Connection: close` -/
  closeConn : Bool
deriving DecidableEq

/-- `now.Unix()`, up to the offset of its epoch. -/
def unix (now : Int) : Int := now / second

def Hit.result (h : Hit) : CacheResult := if h.stale then .stale else .hit

def crlf : Bytes := ascii "\r\n"

def statusMessage : Nat → Bytes
  | 200 => ascii "OK"
  | 201 => ascii "Created"
  | 204 => ascii "No Content"
  | 206 => ascii "Partial Content"
  | 301 => ascii "Moved Permanently"
  | 302 => ascii "Found"
  | 304 => ascii "Not Modified"
  | 307 => ascii "Temporary Redirect"
  | 308 => ascii "Permanent Redirect"
  | 400 => ascii "Bad Request"
  | 401 => ascii "Unauthorized"
  | 403 => ascii "Forbidden"
  | 404 => ascii "Not Found"
  | 405 => ascii "Method Not Allowed"
  | 406 => ascii "Not Acceptable"
  | 413 => ascii "Request Entity Too Large"
  | 416 => ascii "Range Not Satisfiable"
  | 429 => ascii "Too Many Requests"
  | 500 => ascii "Internal Server Error"
  | 502 => ascii "Bad Gateway"
  | 503 => ascii "Service Unavailable"
  | 504 => ascii "Gateway Timeout"
  | _ => ascii "Unknown"

/-- `appendStatusLine`; the common ones are appended at once. -/
def statusLine : Nat → List Bytes
  | 200 => [ascii "HTTP/1.1 200 OK\r\n"]
  | 301 => [ascii "HTTP/1.1 301 Moved Permanently\r\n"]
  | 302 => [ascii "HTTP/1.1 302 Found\r\n"]
  | 304 => [ascii "HTTP/1.1 304 Not Modified\r\n"]
  | 404 => [ascii "HTTP/1.1 404 Not Found\r\n"]
  | 500 => [ascii "HTTP/1.1 500 Internal Server Error\r\n"]
  | code => [ascii "HTTP/1.1 ", formatInt code, [byte ' '], statusMessage code, crlf]

def headerLine (key value : Bytes) : List Bytes := [key, ascii ": ", value, crlf]

def staticLines (o : Stored) (sync : Bool) : List Bytes :=
  (o.header.entries.filter fun e => !skipStaticHeader o sync e.name).flatMap fun e =>
    headerLine e.name e.value

def serializeHead (o : Stored) (sync : Bool) : Bytes := (staticLines o sync).flatten

/-- `appendServeCDCDirectives`, by the pieces. -/
def serveCDCPieces (o : Stored) (h : Hit) : List Bytes :=
  if h.stale then
    if 0 < cdcWindowRemaining o h.now o.staleWhileRevalidate then
      [ascii "public, max-age=0, stale-while-revalidate=",
        formatInt (cdcWindowRemaining o h.now o.staleWhileRevalidate)]
    else if 0 < cdcWindowRemaining o h.now o.staleIfError then
      [ascii "public, max-age=0, stale-while-revalidate=",
        formatInt (cdcWindowRemaining o h.now o.staleIfError)]
    else [ascii "public, max-age=0"]
  else
    [ascii "public, max-age=", formatInt (cdcWallRemaining o h.now)] ++
      (if o.respMustRevalidate then [ascii ", must-revalidate"] else [])

def dynamicHeaders (lib : Rendering) (sync : Bool) (o : Stored) (h : Hit) : List Bytes :=
  (if !o.hasDate && !o.header.has Field.date then headerLine Field.date (lib.httpDate (unix h.now))
    else []) ++
  headerLine Field.age (formatInt (lib.seconds (currentAge o h.now))) ++
  headerLine Field.xCache h.result.text ++
  (if h.stale then [Field.warning, ascii ": 110 - \"Response is Stale\"\r\n"] else []) ++
  (if sync then [Field.cdnCacheControl, ascii ": "] ++ serveCDCPieces o h ++ [crlf] else []) ++
  [if h.closeConn then ascii "Connection: close\r\n" else ascii "Connection: keep-alive\r\n", crlf]

def maxFastPathHeaderBytes : Nat := 8 * 1024

/-- The static block the object has after the call, unless it is too large to be kept. -/
def getOrComputeSerializedHead (sync : Bool) (o : Stored) : Option Bytes → Option Bytes
  | some head => some head
  | none =>
    if maxFastPathHeaderBytes < (serializeHead o sync).length then none
    else some (serializeHead o sync)

/-- What `composeResponse` appends, given the static block cached on the object. -/
def headPieces (lib : Rendering) (sync : Bool) (o : Stored) (serialized : Option Bytes) (h : Hit) :
    List Bytes :=
  statusLine o.statusCode ++
    (match getOrComputeSerializedHead sync o serialized with
    | some head => [head]
    -- `appendResponseHeaders` ends with the dynamic lines already
    | none => staticLines o sync ++ dynamicHeaders lib sync o h) ++
    dynamicHeaders lib sync o h

end FastHead

/-! ## The pool -/

namespace HeaderPool

open FastHead GrowingBuffer Transition

def newBuffer : Nat := 4096

def size (head : List Bytes) : Nat := (head.map List.length).sum

def roomAfter (g : Growth) (cap : Nat) (head : List Bytes) : Nat :=
  capAfter g cap (head.map List.length)

/-- The room of each buffer in the pool and of each held by a response being written. -/
structure Pool where
  pooled : List Nat := []
  inFlight : List Nat := []
deriving DecidableEq

namespace Pool

variable (p : Pool)

def got (pick : Option Nat) : Nat := (pick.bind fun i => p.pooled[i]?).getD newBuffer

def rest (pick : Option Nat) : List Nat := (pick.map p.pooled.eraseIdx).getD p.pooled

end Pool

/-- `composeResponse`: the head, unless it is declined. -/
def composeResponse (g : Growth) (p : Pool) (pick : Option Nat) (head : List Bytes) :
    Option Bytes × Pool :=
  let cap := roomAfter g (p.got pick) head
  if maxFastPathHeaderBytes < cap then (none, { p with pooled := cap :: p.rest pick })
  else (some head.flatten, ⟨p.rest pick, cap :: p.inFlight⟩)

/-- `Release` of one of the responses. -/
def release (p : Pool) (i : Nat) : Pool :=
  let inFlight := p.inFlight.eraseIdx i
  match p.inFlight[i]? with
  | none => p
  | some cap =>
    if cap ≤ maxFastPathHeaderBytes then ⟨cap :: p.pooled, inFlight⟩ else { p with inFlight }

inductive Act where
  | compose (pick : Option Nat) (head : List Bytes)
  | release (i : Nat)
  /-- the collector takes a buffer from the pool -/
  | collect (i : Nat)

def step (g : Growth) (p : Pool) : Act → Pool
  | .compose pick head => (composeResponse g p pick head).2
  | .release i => release p i
  | .collect i => { p with pooled := p.pooled.eraseIdx i }

def Act.head? : Act → Option (List Bytes)
  | .compose _ head => some head
  | .release _ | .collect _ => none

def heads (acts : List Act) : List (List Bytes) := acts.filterMap Act.head?

def DeclinesByLength (g : Growth) (p : Pool) : Act → Prop
  | .compose pick head =>
    (composeResponse g p pick head).1 = none ↔ maxFastPathHeaderBytes < size head
  | .release _ | .collect _ => True

section

variable (g : Growth)

theorem composeResponse_of_over (p : Pool) (pick : Option Nat) {head : List Bytes}
    (h : maxFastPathHeaderBytes < roomAfter g (p.got pick) head) :
    composeResponse g p pick head =
      (none, { p with pooled := roomAfter g (p.got pick) head :: p.rest pick }) :=
  if_pos h

theorem composeResponse_of_within (p : Pool) (pick : Option Nat) {head : List Bytes}
    (h : ¬ maxFastPathHeaderBytes < roomAfter g (p.got pick) head) :
    composeResponse g p pick head =
      (some head.flatten, ⟨p.rest pick, roomAfter g (p.got pick) head :: p.inFlight⟩) :=
  if_neg h

theorem composeResponse_eq_none_iff (p : Pool) (pick : Option Nat) (head : List Bytes) :
    (composeResponse g p pick head).1 = none ↔
      maxFastPathHeaderBytes < roomAfter g (p.got pick) head := by
  by_cases h : maxFastPathHeaderBytes < roomAfter g (p.got pick) head
  · simp [composeResponse_of_over g _ _ h, h]
  · simp [composeResponse_of_within g _ _ h, h]

theorem declinesByLength_iff (p : Pool) (pick : Option Nat) (head : List Bytes) :
    DeclinesByLength g p (.compose pick head) ↔
      (size head ≤ maxFastPathHeaderBytes →
        roomAfter g (p.got pick) head ≤ maxFastPathHeaderBytes) := by
  have hroom : size head ≤ roomAfter g (p.got pick) head := sum_le_capAfter g _ _
  rw [DeclinesByLength, composeResponse_eq_none_iff]
  omega

/-- `cap` is the room of a new buffer after some of the heads have been composed in it. -/
def HasHeld (done : List (List Bytes)) (cap : Nat) : Prop :=
  ∃ held, List.Sublist held done ∧ cap = held.foldl (roomAfter g) newBuffer

variable {g} {done : List (List Bytes)} {cap : Nat}

theorem HasHeld.later (h : HasHeld g done cap) (head : List Bytes) :
    HasHeld g (done ++ [head]) cap := by
  obtain ⟨held, hsub, rfl⟩ := h
  exact ⟨held, hsub.trans (sublist_append_left _ _), rfl⟩

theorem HasHeld.compose (h : HasHeld g done cap) (head : List Bytes) :
    HasHeld g (done ++ [head]) (roomAfter g cap head) := by
  obtain ⟨held, hsub, rfl⟩ := h
  exact ⟨held ++ [head], hsub.append (List.Sublist.refl _), by rw [foldl_append]; rfl⟩

def Traced (g : Growth) (done : List (List Bytes)) (p : Pool) : Prop :=
  ∀ cap ∈ p.pooled ++ p.inFlight, HasHeld g done cap

variable {p : Pool}

theorem Traced.got (h : Traced g done p) (pick : Option Nat) : HasHeld g done (p.got pick) := by
  unfold Pool.got
  cases hpick : pick.bind fun i => p.pooled[i]? with
  | none => exact ⟨[], nil_sublist _, rfl⟩
  | some cap =>
    obtain ⟨i, -, hi⟩ := Option.bind_eq_some_iff.1 hpick
    exact h cap (mem_append_left _ (mem_of_getElem? hi))

theorem mem_of_mem_rest {pick : Option Nat} (h : cap ∈ p.rest pick) : cap ∈ p.pooled := by
  cases pick with
  | none => exact h
  | some i => exact mem_of_mem_eraseIdx h

theorem Traced.compose (h : Traced g done p) (pick : Option Nat) (head : List Bytes) :
    Traced g (done ++ [head]) (composeResponse g p pick head).2 := by
  have hnew := (h.got pick).compose head
  have hold : ∀ c, c ∈ p.rest pick ∨ c ∈ p.inFlight → HasHeld g (done ++ [head]) c := by
    intro c hc
    exact (h c (mem_append.2 (hc.imp_left mem_of_mem_rest))).later head
  intro c hc
  by_cases hover : maxFastPathHeaderBytes < roomAfter g (p.got pick) head
  · simp only [composeResponse_of_over g _ _ hover, mem_append, mem_cons] at hc
    obtain (rfl | hc) | hc := hc
    · exact hnew
    · exact hold c (.inl hc)
    · exact hold c (.inr hc)
  · simp only [composeResponse_of_within g _ _ hover, mem_append, mem_cons] at hc
    obtain hc | rfl | hc := hc
    · exact hold c (.inl hc)
    · exact hnew
    · exact hold c (.inr hc)

theorem Traced.release (h : Traced g done p) (i : Nat) : Traced g done (release p i) := by
  intro c hc
  apply h
  unfold HeaderPool.release at hc
  split at hc
  · exact hc
  next cap hi =>
    split at hc <;> simp only [cons_append, mem_cons, mem_append] at hc ⊢
    · obtain rfl | hc | hc := hc
      · exact .inr (mem_of_getElem? hi)
      · exact .inl hc
      · exact .inr (mem_of_mem_eraseIdx hc)
    · exact hc.imp_right mem_of_mem_eraseIdx

theorem Traced.collect (h : Traced g done p) (i : Nat) : Traced g done (step g p (.collect i)) :=
  fun c hc => h c (mem_append.2 ((mem_append.1 hc).imp_left mem_of_mem_eraseIdx))

end

/-! ## Runs -/

/-- No buffer that a head within the limit may get outgrows the limit, whichever heads it has held.
-/
def RoomKept (g : Growth) (hs : List (List Bytes)) : Prop :=
  ∀ done head later, hs = done ++ head :: later → size head ≤ maxFastPathHeaderBytes →
    ∀ cap, HasHeld g done cap → roomAfter g cap head ≤ maxFastPathHeaderBytes

section

variable {g : Growth}

theorem heads_map_compose (hs : List (List Bytes)) : heads (hs.map (Act.compose none)) = hs := by
  induction hs with
  | nil => rfl
  | cons head hs ih => exact congrArg (head :: ·) ih

theorem along_of_roomKept {acts : List Act} {p : Pool} {done : List (List Bytes)}
    (hp : Traced g done p) (h : RoomKept g (done ++ heads acts)) :
    Along (step g) (DeclinesByLength g) p acts := by
  induction acts generalizing p done with
  | nil => trivial
  | cons a acts ih =>
    cases a with
    | compose pick head =>
      refine ⟨(declinesByLength_iff g p pick head).2 fun hsize => ?_, ?_⟩
      · exact h done head (heads acts) rfl hsize _ (hp.got pick)
      · refine ih (hp.compose pick head) ?_
        rwa [append_assoc]
    | release i => exact ⟨trivial, ih (hp.release i) h⟩
    | collect i => exact ⟨trivial, ih (hp.collect i) h⟩

def Single (p : Pool) (cap : Nat) : Prop := p.got (some 0) = cap ∧ p.rest (some 0) = []

/-- One buffer can be used for any of the heads: the others get new ones, never seen again. -/
theorem exists_schedule {held done : List (List Bytes)} (h : List.Sublist held done) (p : Pool)
    {cap : Nat} (hp : Single p cap) :
    ∃ acts, heads acts = done ∧
      Single (run (step g) p acts) (held.foldl (roomAfter g) cap) := by
  induction h generalizing p cap with
  | slnil => exact ⟨[], rfl, hp⟩
  | @cons held done head _ ih =>
    by_cases hover : maxFastPathHeaderBytes < roomAfter g (p.got none) head
    · -- declined, and collected from the pool
      have hnext : Single (run (step g) p [.compose none head, .collect 0]) cap := by
        simp only [run_cons, step, composeResponse_of_over g _ _ hover]
        exact hp
      obtain ⟨acts, hacts, hrun⟩ := ih _ hnext
      exact ⟨.compose none head :: .collect 0 :: acts, by rw [← hacts]; rfl, hrun⟩
    · -- served, and not released
      have hnext : Single (run (step g) p [.compose none head]) cap := by
        simp only [run_cons, step, composeResponse_of_within g _ _ hover]
        exact hp
      obtain ⟨acts, hacts, hrun⟩ := ih _ hnext
      exact ⟨.compose none head :: acts, by rw [← hacts]; rfl, hrun⟩
  | @cons_cons held done head _ ih =>
    obtain ⟨rfl, hrest⟩ := hp
    by_cases hover : maxFastPathHeaderBytes < roomAfter g (p.got (some 0)) head
    · have hnext : Single (run (step g) p [.compose (some 0) head])
          (roomAfter g (p.got (some 0)) head) := by
        simp only [run_cons, step, composeResponse_of_over g _ _ hover, hrest]
        exact ⟨rfl, rfl⟩
      obtain ⟨acts, hacts, hrun⟩ := ih _ hnext
      exact ⟨.compose (some 0) head :: acts, by rw [← hacts]; rfl, hrun⟩
    · have hnext : Single (run (step g) p [.compose (some 0) head, .release 0])
          (roomAfter g (p.got (some 0)) head) := by
        simp only [run_cons, step, composeResponse_of_within g _ _ hover, release, hrest,
          getElem?_cons_zero, if_pos (not_lt.1 hover)]
        exact ⟨rfl, rfl⟩
      obtain ⟨acts, hacts, hrun⟩ := ih _ hnext
      exact ⟨.compose (some 0) head :: .release 0 :: acts, by rw [← hacts]; rfl, hrun⟩

end

/-- However buffers are handed out, every call goes by the length of its own head exactly if no
buffer outgrows the limit but with a head over it. -/
theorem declines_by_length_iff (g : Growth) (hs : List (List Bytes)) :
    (∀ acts, heads acts = hs → Along (step g) (DeclinesByLength g) {} acts) ↔ RoomKept g hs := by
  constructor
  · rintro h done head later rfl hsize _ ⟨held, hsub, rfl⟩
    have hnew : Single {} newBuffer := ⟨rfl, rfl⟩
    obtain ⟨acts, hacts, hgot, -⟩ := exists_schedule (g := g) hsub {} hnew
    have hrun := h (acts ++ .compose (some 0) head :: later.map (Act.compose none)) (by
      rw [heads, filterMap_append, ← hacts]
      exact congrArg (_ ++ head :: ·) (heads_map_compose later))
    have hcall := (along_append.1 hrun).2.1
    rw [declinesByLength_iff, hgot] at hcall
    exact hcall hsize
  · rintro h acts rfl
    have hempty : Traced g [] {} := by
      intro c hc
      simp at hc
    exact along_of_roomKept hempty h

def paddedObject (n : Nat) : Stored :=
  { testObject [] (60 * second) 0 false with
    header := ⟨[⟨ascii "X-Padding", List.replicate n (byte 'a')⟩]⟩ }

def sampleRendering : Rendering := ⟨(·.tdiv second), fun _ => ascii "Mon, 01 Jan 0001 00:00:00 GMT"⟩

def paddedHead (n : Nat) : List Bytes :=
  headPieces sampleRendering false (paddedObject n) none ⟨0, false, false⟩

theorem length_serializeHead_le (lib : Rendering) (sync : Bool) (o : Stored) (h : Hit) :
    (serializeHead o sync).length ≤ size (headPieces lib sync o none h) := by
  rw [size, ← length_flatten, headPieces, getOrComputeSerializedHead]
  split_ifs <;> simp only [serializeHead, flatten_append, length_append, flatten_cons] <;> omega

theorem over_paddedHead : maxFastPathHeaderBytes < size (paddedHead 9000) := by
  have hstatic : serializeHead (paddedObject 9000) false =
      (headerLine (ascii "X-Padding") (replicate 9000 (byte 'a'))).flatten := by
    rfl
  have hlength : 9000 ≤ (serializeHead (paddedObject 9000) false).length := by
    rw [hstatic]
    simp only [headerLine, flatten_cons, length_append, length_replicate]
    omega
  exact lt_of_lt_of_le (by decide) (le_trans hlength (length_serializeHead_le _ _ _ _))

/-- A short head is served in a new buffer and declined in the one that the call before has put
back. -/
theorem short_head_declined :
    size (paddedHead 10) ≤ maxFastPathHeaderBytes ∧
    (composeResponse .exact {} none (paddedHead 10)).1 = some (paddedHead 10).flatten ∧
    (composeResponse .exact (composeResponse .exact {} none (paddedHead 9000)).2 (some 0)
      (paddedHead 10)).1 = none := by
  have hover : maxFastPathHeaderBytes < roomAfter .exact newBuffer (paddedHead 9000) :=
    lt_of_lt_of_le over_paddedHead (sum_le_capAfter .exact _ _)
  have hback : (composeResponse .exact {} none (paddedHead 9000)).2.got (some 0) =
      roomAfter .exact newBuffer (paddedHead 9000) := by
    rw [composeResponse_of_over .exact {} none hover]
    rfl
  refine ⟨by decide, by decide, ?_⟩
  rw [composeResponse_eq_none_iff, hback]
  exact lt_of_lt_of_le hover (le_capAfter .exact _ _)

end HeaderPool

end Bouine.Cache
