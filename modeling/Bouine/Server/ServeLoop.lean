import Bouine.Lib.BufferedReader
import Bouine.Server.Parser

/-! # The keep-alive loop

`Serve` answers the requests of a connection (`internal/server/h1parser/parser.go`). Bytes that a
client sends ahead are carried from one iteration to the next: behind a fast-path hit as the excess
of the parser's buffer, behind a request that falls through as what fasthttp's reader has buffered.
The state remembers what the client's stream has left to answer; the theorem says when the carried
bytes and the socket still are that.
-/

namespace Bouine.Server

open Lib Lib.Transition List

/-! ## The code -/

def readBufferSize : Nat := 16 * 1024

/-- How the read loop of `parseRequest` ends. -/
inductive HeadRead where
  | head (buf : Bytes) (headerEnd : Nat) (socket : List Bytes)
  /-- the stream ended before a head was found -/
  | eof (buf : Bytes)
  | oversize
  | closed

/-- Reads into what is free of the buffer, one chunk of the socket at a time. A last chunk that is
`eager` comes with `io.EOF`, and the loop is left without a look for the end of the head. -/
def readHead (eager : Bool) : List Bytes → Bytes → HeadRead
  | [], buf =>
    match findHeaderEnd buf with
    | some i => .head buf i []
    | none =>
      if buf = [] then .closed else if readBufferSize ≤ buf.length then .oversize else .eof buf
  | c :: cs, buf =>
    match findHeaderEnd buf with
    | some i => .head buf i (c :: cs)
    | none =>
      let free := readBufferSize - buf.length
      if free < c.length then
        match findHeaderEnd (buf ++ c.take free) with
        | some i => .head (buf ++ c.take free) i (c.drop free :: cs)
        | none => .oversize
      else if eager ∧ cs = [] then if buf ++ c = [] then .closed else .eof (buf ++ c)
      else if findHeaderEnd (buf ++ c) = none ∧ readBufferSize ≤ (buf ++ c).length then .oversize
      else readHead eager cs (buf ++ c)

structure Conn where
  /-- the prefix handed to the next `parseRequest` -/
  carried : Bytes
  /-- what the client has sent and nobody has read, as it will arrive -/
  socket : List Bytes
  /-- the client's stream without the requests already answered -/
  pending : Bytes
  closed : Bool
  /-- the last read returns its bytes together with the end of the stream -/
  eager : Bool

def Conn.open (chunks : List Bytes) (eager : Bool) : Conn := ⟨[], chunks, chunks.flatten, false, eager⟩

/-- Not the code's to decide: whether the fast path has an answer, and how fasthttp reads. -/
structure Turn where
  hit : Bool
  reads : List ReadOp

/-- `parseRequest` and `parseBuffer`: the request, the excess and the rest of the socket; none if
the connection ends. -/
def receive (s : Conn) : Option (RawRequest × Bytes × List Bytes) :=
  match readHead s.eager s.socket (s.carried.take readBufferSize) with
  | .head buf i socket =>
    match parseBuffer buf (some i) with
    | .request req excess => some (req, excess, socket)
    | _ => none
  | .eof buf =>
    match parseBuffer buf none with
    | .request req excess => some (req, excess, [])
    | _ => none
  | .oversize => none
  | .closed => none

def servedFast (t : Turn) (req : RawRequest) : Bool :=
  t.hit && (req.method == ascii "GET" || req.method == ascii "HEAD") &&
    !req.scanFlags.disqualifyFastPath

/-- fasthttp's reader in `handleFallThrough`, after it has read the request. -/
def fallReader (t : Turn) (req : RawRequest) (excess : Bytes) (socket : List Bytes) : Reader :=
  run (Reader.step readBufferSize) (.reset ⟨rebuildRequestHead req excess, socket⟩) t.reads

def headLength (stream : Bytes) : Nat := (findHeaderEnd stream).getD stream.length

/-- The length of a request's body, from its head and what follows it. -/
abbrev Framing := RawRequest → Bytes → Nat

variable (framing : Framing)

def TakesRequest (t : Turn) (req : RawRequest) (excess : Bytes) (socket : List Bytes) : Prop :=
  (fallReader t req excess socket).taken.length =
    (rebuildRequestHead req []).length + framing req (excess ++ socket.flatten)

instance (t : Turn) (req : RawRequest) (excess : Bytes) (socket : List Bytes) :
    Decidable (TakesRequest framing t req excess socket) := by
  unfold TakesRequest; infer_instance

/-- One iteration of `Serve`. A request that asks for it, or that fasthttp cannot read, closes the
connection. -/
def serveStep (s : Conn) (t : Turn) : Conn :=
  if s.closed then s
  else
    match receive s with
    | none => { s with closed := true }
    | some (req, excess, socket) =>
      if req.connectionClose then { s with closed := true }
      else if servedFast t req then
        { s with carried := excess, socket, pending := s.pending.drop (headLength s.pending) }
      else if TakesRequest framing t req excess socket then
        let r := fallReader t req excess socket
        -- the leftover of the reader is adopted; the rest of the replayed bytes goes with it
        { s with
          carried := r.buffered
          socket := r.source.chunks
          pending := s.pending.drop (headLength s.pending + framing req (excess ++ socket.flatten)) }
      else { s with closed := true }

/-! ## Conservation -/

/-- The carried bytes and the socket are the client's stream without what has been answered. -/
def Conserved (s : Conn) : Prop := s.closed = true ∨ s.carried ++ s.socket.flatten = s.pending

/-- If the stream ends with the read that completes a head, nothing follows the head. -/
def EndsAtHead (s : Conn) : Prop :=
  match readHead s.eager s.socket (s.carried.take readBufferSize) with
  | .eof buf => headLength buf = buf.length
  | _ => True

/-- Nothing comes behind the head with the end of the stream, and when a request falls through,
fasthttp leaves nothing of the replayed bytes unread. -/
def Drained (s : Conn) (t : Turn) : Prop :=
  match receive s with
  | none => True
  | some (req, excess, socket) =>
    s.closed = false → req.connectionClose = false →
      servedFast t req = true ∨ TakesRequest framing t req excess socket →
      EndsAtHead s ∧ (servedFast t req = false → (fallReader t req excess socket).source.front = [])

/-- The end of the stream comes in a read of its own or behind a head, and the rebuilt head and the
excess fit the reader, or the body takes all of the excess. -/
def Fits (s : Conn) (t : Turn) : Prop :=
  (s.eager → EndsAtHead s) ∧
  match receive s with
  | none => True
  | some (req, excess, socket) =>
    servedFast t req = false →
      (rebuildRequestHead req excess).length ≤ readBufferSize ∨
        excess.length ≤ framing req (excess ++ socket.flatten)

variable {eager : Bool}

theorem readHead_head {chunks socket : List Bytes} {buf₀ buf : Bytes} {i : Nat}
    (hlen : buf₀.length ≤ readBufferSize) (h : readHead eager chunks buf₀ = .head buf i socket) :
    buf ++ socket.flatten = buf₀ ++ chunks.flatten ∧ findHeaderEnd buf = some i ∧
      buf.length ≤ readBufferSize := by
  induction chunks generalizing buf₀ with
  | nil =>
    rw [readHead] at h
    split at h
    · obtain ⟨rfl, rfl, rfl⟩ := HeadRead.head.inj h
      exact ⟨rfl, ‹_›, hlen⟩
    · split_ifs at h
  | cons c cs ih =>
    rw [readHead] at h
    split at h
    · obtain ⟨rfl, rfl, rfl⟩ := HeadRead.head.inj h
      exact ⟨rfl, ‹_›, hlen⟩
    · dsimp only at h
      split_ifs at h with hfull
      · split at h
        · obtain ⟨rfl, rfl, rfl⟩ := HeadRead.head.inj h
          refine ⟨?_, ‹_›, ?_⟩
          · rw [flatten_cons, flatten_cons, append_assoc,
              ← append_assoc (c.take _), take_append_drop]
          · simp only [length_append, length_take]
            omega
        · cases h
      · have hlen' : (buf₀ ++ c).length ≤ readBufferSize := by
          rw [length_append]
          omega
        simpa using ih hlen' h

theorem readHead_eof {chunks : List Bytes} {buf₀ buf : Bytes}
    (h : readHead eager chunks buf₀ = .eof buf) :
    buf = buf₀ ++ chunks.flatten ∧ (eager = false → findHeaderEnd buf = none) := by
  induction chunks generalizing buf₀ with
  | nil =>
    rw [readHead] at h
    split at h
    · cases h
    · split_ifs at h
      obtain rfl := HeadRead.eof.inj h
      exact ⟨by simp, fun _ => ‹_›⟩
  | cons c cs ih =>
    rw [readHead] at h
    split at h
    · cases h
    · dsimp only at h
      split_ifs at h with hfull heager
      · split at h <;> cases h
      · obtain rfl := HeadRead.eof.inj h
        exact ⟨by simp [heager.2], by simp [heager.1]⟩
      · simpa using ih h

theorem endsAtHead_of_not_eager {s : Conn} (h : s.eager = false) : EndsAtHead s := by
  unfold EndsAtHead
  split
  · rename_i buf hread
    simp [headLength, (readHead_eof hread).2 h]
  · trivial

variable {socket : List Bytes} {req : RawRequest} {excess : Bytes} {s : Conn}

section

variable (hlen : s.carried.length ≤ readBufferSize)
include hlen

theorem receive_cases
    (h : receive s = some (req, excess, socket)) :
    (∃ buf i, readHead s.eager s.socket (s.carried.take readBufferSize) = .head buf i socket ∧
      buf ++ socket.flatten = s.carried ++ s.socket.flatten ∧
      findHeaderEnd buf = some i ∧ buf.length ≤ readBufferSize ∧ excess = buf.drop i) ∨
    readHead s.eager s.socket (s.carried.take readBufferSize) =
      .eof (s.carried ++ s.socket.flatten) ∧ excess = [] ∧ socket = [] := by
  have htake : s.carried.take readBufferSize = s.carried := take_of_length_le hlen
  unfold receive at h
  rw [htake] at h ⊢
  split at h
  · rename_i buf i socket' hread
    obtain ⟨hbuf, hend, hbuflen⟩ := readHead_head hlen hread
    split at h
    · rename_i req' excess' hparse
      obtain ⟨rfl, rfl, rfl⟩ : req' = req ∧ excess' = excess ∧ socket' = socket := by simpa using h
      exact .inl ⟨buf, i, hread, hbuf, hend, hbuflen, parseBuffer_excess hparse⟩
    · cases h
  · rename_i buf hread
    split at h
    · rename_i req' excess' hparse
      obtain ⟨rfl, rfl, rfl⟩ : req' = req ∧ excess' = excess ∧ [] = socket := by simpa using h
      exact .inr ⟨(readHead_eof hread).1 ▸ hread, parseBuffer_excess hparse, rfl⟩
    · cases h
  · cases h
  · cases h

theorem receive_rest_iff
    (hcons : s.carried ++ s.socket.flatten = s.pending) (h : receive s = some (req, excess, socket))
    : excess ++ socket.flatten = s.pending.drop (headLength s.pending) ↔ EndsAtHead s := by
  rcases receive_cases hlen h with ⟨buf, i, hread, hbuf, hend, -, rfl⟩ | ⟨hread, rfl, rfl⟩
  · rw [hcons] at hbuf
    have hhead : headLength s.pending = i := by
      rw [headLength, ← hbuf, findHeaderEnd_append hend]
      rfl
    refine iff_of_true ?_ (by rw [EndsAtHead, hread]; trivial)
    rw [hhead, ← hbuf, drop_append_of_le_length (findHeaderEnd_bounds hend).2]
  · have hle : headLength s.pending ≤ s.pending.length := by
      unfold headLength
      cases hend : findHeaderEnd s.pending with
      | none => exact le_rfl
      | some i => exact (findHeaderEnd_bounds hend).2
    rw [EndsAtHead, hread, hcons]
    simp only [flatten_nil, append_nil]
    rw [eq_comm, drop_eq_nil_iff, ge_antisymm_iff, and_iff_left hle]

theorem length_excess
    (h : receive s = some (req, excess, socket)) : excess.length ≤ readBufferSize := by
  rcases receive_cases hlen h with ⟨buf, i, -, -, -, hbuf, rfl⟩ | ⟨-, rfl, -⟩
  · rw [length_drop]
    omega
  · simp

end

theorem all_fallReader (t : Turn) (req : RawRequest) (excess : Bytes) (socket : List Bytes) :
    (fallReader t req excess socket).all =
      rebuildRequestHead req [] ++ (excess ++ socket.flatten) := by
  refine (Reader.all_run _ _).trans ?_
  simp only [Reader.all, Reader.reset, Source.bytes, nil_append,
    rebuildRequestHead_append req excess, append_assoc]

/-- When fasthttp has taken its request, buffer, unread prefix and socket are the rest of the
stream. -/
theorem fallReader_rest {t : Turn} (h : TakesRequest framing t req excess socket) :
    (fallReader t req excess socket).buffered ++
        ((fallReader t req excess socket).source.front ++
          (fallReader t req excess socket).source.chunks.flatten) =
      (excess ++ socket.flatten).drop (framing req (excess ++ socket.flatten)) := by
  have hall := all_fallReader t req excess socket
  simp only [Reader.all, Source.bytes] at hall
  have hdrop := congrArg (drop (fallReader t req excess socket).taken.length) hall
  rw [drop_left, h, drop_length_add_append] at hdrop
  exact hdrop

/-- No body is taken where nothing follows the head. -/
theorem framing_eq_zero {t : Turn} (h : TakesRequest framing t req [] []) : framing req [] = 0 := by
  have hall := congrArg length (all_fallReader t req [] [])
  have htaken : (fallReader t req [] []).taken.length ≤ (fallReader t req [] []).all.length := by
    rw [Reader.all, length_append]
    omega
  rw [TakesRequest] at h
  simp only [flatten_nil, append_nil] at h hall
  omega

def Bounded (s : Conn) : Prop := s.carried.length ≤ readBufferSize ∨ s.closed = true

theorem serveStep_cases (s : Conn) (t : Turn) :
    serveStep framing s t = s ∧ s.closed ∨
    (serveStep framing s t).closed ∨
    s.closed = false ∧ ∃ req excess socket, receive s = some (req, excess, socket) ∧
      req.connectionClose = false ∧
      (servedFast t req ∧ serveStep framing s t =
          ⟨excess, socket, s.pending.drop (headLength s.pending), false, s.eager⟩ ∨
        servedFast t req = false ∧ TakesRequest framing t req excess socket ∧
        serveStep framing s t =
          ⟨(fallReader t req excess socket).buffered,
            (fallReader t req excess socket).source.chunks,
            s.pending.drop (headLength s.pending + framing req (excess ++ socket.flatten)),
            false, s.eager⟩) := by
  unfold serveStep
  by_cases hclosed : s.closed = true
  · exact .inl ⟨if_pos hclosed, hclosed⟩
  rw [if_neg hclosed]
  cases hrecv : receive s with
  | none => exact .inr (.inl rfl)
  | some x =>
    obtain ⟨req, excess, socket⟩ := x
    by_cases hclose : req.connectionClose = true
    · exact .inr (.inl (by simp [hclose]))
    · by_cases hfast : servedFast t req = true
      · exact .inr (.inr ⟨by simpa using hclosed, req, excess, socket, rfl,
          by simpa using hclose, .inl ⟨hfast, by simp [hclosed, hclose, hfast]⟩⟩)
      · by_cases htakes : TakesRequest framing t req excess socket
        · exact .inr (.inr ⟨by simpa using hclosed, req, excess, socket, rfl,
            by simpa using hclose, .inr ⟨by simpa using hfast, htakes,
              by simp [hclosed, hclose, hfast, htakes]⟩⟩)
        · exact .inr (.inl (by simp [hfast, htakes]))

theorem bounded_step (s : Conn) (t : Turn) (hs : Bounded s) : Bounded (serveStep framing s t) := by
  rcases serveStep_cases framing s t with
    ⟨hsame, -⟩ | hclosed | ⟨hopen, req, excess, socket, hrecv, -, ⟨-, hstep⟩ | ⟨-, -, hstep⟩⟩
  · rw [hsame]
    exact hs
  · exact .inr hclosed
  · rw [hstep]
    exact .inl (length_excess (hs.resolve_right (by simp [hopen])) hrecv)
  · rw [hstep]
    exact .inl (Reader.buffered_run _ _ (by simp [Reader.reset]))

theorem conserved_step_iff (s : Conn) (t : Turn) (hs : Bounded s) (hcons : Conserved s) :
    Conserved (serveStep framing s t) ↔ Drained framing s t := by
  rcases serveStep_cases framing s t with
    ⟨hsame, hclosed⟩ | hclosed | ⟨hopen, req, excess, socket, hrecv, hclose, hkind⟩
  · have : Drained framing s t := by
      unfold Drained
      split <;> simp [hclosed]
    exact iff_of_true (.inl (by rw [hsame, hclosed])) this
  · refine iff_of_true (.inl hclosed) ?_
    unfold Drained
    split
    · trivial
    · -- the connection is only kept if fasthttp took its request
      rename_i req excess socket hrecv
      intro hopen hclose hkind
      rcases hkind with hfast | htakes
      · simp [serveStep, hopen, hrecv, hclose, hfast] at hclosed
      · cases hfast : servedFast t req <;>
          simp [serveStep, hopen, hrecv, hclose, hfast, htakes] at hclosed
  · have hcons' := hcons.resolve_left (by simp [hopen])
    have hrest := receive_rest_iff (hs.resolve_right (by simp [hopen])) hcons' hrecv
    rcases hkind with ⟨hfast, hstep⟩ | ⟨hfast, htakes, hstep⟩
    · have hdrained : Drained framing s t ↔ EndsAtHead s := by
        simp [Drained, hrecv, hopen, hclose, hfast]
      rw [hdrained, hstep, ← hrest, Conserved]
      simp
    · have hreader := fallReader_rest framing htakes
      have hdrained : Drained framing s t ↔
          EndsAtHead s ∧ (fallReader t req excess socket).source.front = [] := by
        simp [Drained, hrecv, hopen, hclose, hfast, htakes]
      rw [hdrained, hstep]
      simp only [Conserved, Bool.false_eq_true, false_or]
      by_cases hend : EndsAtHead s
      · rw [hrest.2 hend, drop_drop] at hreader
        rw [hrest.2 hend, ← hreader, append_right_inj, and_iff_right hend]
        exact ⟨fun h => append_left_eq_self.1 h.symm, fun h => by rw [h, nil_append]⟩
      · -- the bytes behind the head are gone, and no body was there to take
        refine iff_of_false (fun hkept => hend (hrest.1 ?_)) fun h => hend h.1
        rcases receive_cases (hs.resolve_right (by simp [hopen])) hrecv with
          ⟨buf, i, hread, -⟩ | ⟨-, rfl, rfl⟩
        · exact absurd (by rw [EndsAtHead, hread]; trivial) hend
        · have hnone := hreader
          rw [flatten_nil, append_nil, drop_nil, append_eq_nil_iff, append_eq_nil_iff] at hnone
          rw [hnone.1, hnone.2.2, flatten_nil, append_nil, framing_eq_zero framing htakes,
            Nat.add_zero] at hkept
          exact hkept

/-- The replayed bytes are drained if they fit the reader, or the body takes what follows the head.
-/
theorem drained_of_fits {t : Turn} (h : Fits framing s t) : Drained framing s t := by
  obtain ⟨heager, h⟩ := h
  have hend : EndsAtHead s := by
    cases hs : s.eager with
    | true => exact heager hs
    | false => exact endsAtHead_of_not_eager hs
  unfold Drained
  split
  · trivial
  · rename_i req excess socket hrecv
    simp only [hrecv] at h
    refine fun _ _ hkind => ⟨hend, fun hfast => ?_⟩
    have htakes := hkind.resolve_left (by simp [hfast])
    rcases h hfast with hsize | hbody
    · refine Reader.front_nil_of_fits hsize ?_
      intro hnil
      have hlen : (fallReader t req excess socket).taken.length = 0 := by
        rw [fallReader, hnil]
        rfl
      have hpos := length_rebuildRequestHead_pos req []
      rw [TakesRequest] at htakes
      omega
    · refine Reader.front_nil_of_taken ?_
      change _ ≤ (fallReader t req excess socket).taken.length
      rw [htakes]
      rw [rebuildRequestHead_append, length_append]
      omega

/-- The stream stays intact exactly as long as no bytes come behind a head with the end of the stream
and every request that falls through drains what is replayed to fasthttp; it is enough that the end
comes by itself, and the rebuilt head and the excess fit the reader, or that the body takes all of
the excess. -/
theorem pipelined_bytes_conserved_iff (framing : Framing) (chunks : List Bytes) (eager : Bool)
    (turns : List Turn) :
    (Always (serveStep framing) Conserved (Conn.open chunks eager) turns ↔
      Along (serveStep framing) (Drained framing) (Conn.open chunks eager) turns) ∧
    (Along (serveStep framing) (Fits framing) (Conn.open chunks eager) turns →
      Always (serveStep framing) Conserved (Conn.open chunks eager) turns) := by
  have hiff : Always (serveStep framing) Conserved (Conn.open chunks eager) turns ↔
      Along (serveStep framing) (Drained framing) (Conn.open chunks eager) turns :=
    always_iff_along (bounded_step framing) (conserved_step_iff framing)
      (.inl (Nat.zero_le _)) (.inr rfl)
  exact ⟨hiff, fun h => hiff.2 (h.mono fun _ _ => drained_of_fits framing)⟩

/-- The header has no space after its colon: the head grows by one byte when it is rebuilt. -/
def tightHead : Bytes := ascii "GET / HTTP/1.1" ++ crlf ++ ascii "Host:h" ++ crlf ++ crlf

def pipelined : Bytes := List.replicate 16358 (byte 'G')

def tightRequest : RawRequest where
  method := ascii "GET"
  path := ascii "/"
  query := []
  host := ascii "h"
  httpVersion := ascii "HTTP/1.1"
  headers := [⟨ascii "Host", ascii "h"⟩]
  scanFlags := { hostSeen := true }
  cacheControlRaw := []
  connectionClose := false

theorem receive_tight : receive (Conn.open [tightHead ++ pipelined] false) =
    some (tightRequest, pipelined, []) := by
  have hend : ∀ rest : Bytes, findHeaderEnd (tightHead ++ rest) = some 26 := fun _ => rfl
  have hparse : ∀ rest : Bytes,
      parseBuffer (tightHead ++ rest) (some 26) = .request tightRequest rest := fun _ => rfl
  have hlen : (tightHead ++ pipelined).length = readBufferSize := by
    rw [length_append, pipelined, length_replicate]
    rfl
  have hread : readHead false [tightHead ++ pipelined] [] = .head (tightHead ++ pipelined) 26 [] := by
    rw [readHead]
    simp only [findHeaderEnd, length_nil, Nat.sub_zero, hlen, lt_irrefl, if_false,
      nil_append, hend, reduceCtorEq, false_and]
    rw [readHead, hend]
  simp [receive, Conn.open, hread, hparse]

theorem fallReader_tight : fallReader ⟨false, [.fill, .read 27]⟩ tightRequest pipelined [] =
    ⟨rebuildRequestHead tightRequest [], List.replicate 16357 (byte 'G'), ⟨[byte 'G'], []⟩⟩ := by
  have hhead : (rebuildRequestHead tightRequest []).length = 27 := rfl
  have htake : (rebuildRequestHead tightRequest pipelined).take readBufferSize =
      rebuildRequestHead tightRequest [] ++ replicate 16357 (byte 'G') := by
    rw [rebuildRequestHead_append, take_append, pipelined, take_replicate]
    rfl
  have hdrop : (rebuildRequestHead tightRequest pipelined).drop readBufferSize = [byte 'G'] := by
    rw [rebuildRequestHead_append, drop_append, pipelined, drop_replicate]
    rfl
  have hne : rebuildRequestHead tightRequest pipelined ≠ [] := by
    intro h
    have := length_rebuildRequestHead_pos tightRequest pipelined
    simp [h] at this
  have hbuf : rebuildRequestHead tightRequest [] ++ replicate 16357 (byte 'G') ≠ [] :=
    append_ne_nil_of_left_ne_nil (by decide) _
  simp only [fallReader, run_cons, run_nil, Reader.step, Reader.reset, Source.read, hne, if_false,
    length_nil, Nat.sub_zero, nil_append, htake, hdrop, hbuf, ne_eq, not_false_eq_true,
    if_true, (by decide : ¬ (27 : Nat) = 0)]
  rw [← hhead, take_left, drop_left]

/-- The rebuilt head pushes the last pipelined byte out of the reader. -/
theorem last_pipelined_byte_lost :
    let s := serveStep (fun _ _ => 0) (Conn.open [tightHead ++ pipelined] false)
      ⟨false, [.fill, .read 27]⟩
    s.closed = false ∧ s.pending = replicate 16358 (byte 'G') ∧
      s.carried ++ s.socket.flatten = replicate 16357 (byte 'G') ∧ ¬ Conserved s := by
  have hpending : (Conn.open [tightHead ++ pipelined] false).pending.drop
      (headLength (Conn.open [tightHead ++ pipelined] false).pending + 0) = pipelined := by
    have hend : ∀ rest : Bytes, findHeaderEnd (tightHead ++ rest) = some 26 := fun _ => rfl
    have hdrop : ∀ rest : Bytes, (tightHead ++ rest).drop 26 = rest := fun _ => rfl
    simp [Conn.open, headLength, hend, hdrop]
  have hstep : serveStep (fun _ _ => 0) (Conn.open [tightHead ++ pipelined] false)
      ⟨false, [.fill, .read 27]⟩ = ⟨replicate 16357 (byte 'G'), [], pipelined, false, false⟩ := by
    simp only [serveStep, receive_tight, fallReader_tight]
    rw [hpending]
    rfl
  rw [hstep]
  refine ⟨rfl, rfl, append_nil _, fun hcons => ?_⟩
  have hcons : replicate 16357 (byte 'G') ++ [] = pipelined :=
    hcons.resolve_left Bool.false_ne_true
  have hlen := congrArg length hcons
  rw [append_nil, length_replicate, pipelined, length_replicate] at hlen
  exact absurd hlen (by decide)

end Bouine.Server
