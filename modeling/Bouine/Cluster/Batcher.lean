import Bouine.Lib.Transition
import Bouine.Cluster.Codec
import Bouine.Cluster.Gossip

/-! # The invalidation batcher

Purges and refreshes are queued and posted to the peers in batches (`internal/cluster/batcher.go`,
the broadcaster in `broadcast.go`, the receiving side in `handlers.go`). Callers queue events, and
hand out those they must deliver themselves; a loop flushes what is due. Each lock section is one
step of the machine, so is a delivery, so is the signal after the unlock. The queues work alike: a
`Lane` is one of them with the deliveries its callers owe.

The sequence number of an event is an input, drawn before the event is queued and between those of
other callers.
-/

namespace Bouine.Cluster

open Lib Lib.Transition List Nat

def broadcastBatchSize : Nat := 256

def broadcastQueueCap : Nat := 4096

/-! ## Delivery of a batch -/

inductive BatchType where
  | purgeBatch
  | refreshBatch
  deriving DecidableEq

inductive FailureReason where
  | timeout
  | dial
  | status5xx
  deriving DecidableEq

inductive Metric where
  | broadcastFailure (typ : BatchType) (reason : FailureReason)
  | httpInvalidation (typ : BatchType)
  deriving DecidableEq

structure Channel (E : Type) where
  typ : BatchType
  path : Bytes
  http : BatchCodec E
  gossip : BatchCodec E

def purgeChannel : Channel PurgeEvent :=
  ⟨.purgeBatch, ascii "/v1/peer/purge/batch", purgeBatchHTTP, purgeBatchGossip⟩

def refreshChannel : Channel RefreshEvent :=
  ⟨.refreshBatch, ascii "/v1/peer/refresh/batch", refreshBatchHTTP, refreshBatchGossip⟩

structure PeerInfo where
  name : Bytes
  adminAddr : Bytes
  deriving DecidableEq

/-- What comes of a request to a peer: the client fails, or the peer answers. -/
inductive Answer where
  | err (text : Bytes)
  | status (code : Nat)
  deriving DecidableEq

namespace Answer

def accepts : Answer → Bool
  | .err _ => false
  | .status code => 200 ≤ code && code < 300

def Plain : Answer → Prop
  | .err _ => True
  | .status code => Answer.accepts (.status code) = false → 500 ≤ code

end Answer

def postBinary (addr path : Bytes) : Answer → Option Bytes
  | .err text => some (ascii "broadcast " ++ addr ++ path ++ ascii ": " ++ text)
  | .status code =>
    if 500 ≤ code then
      some (ascii "broadcast " ++ addr ++ path ++ ascii ": status " ++ ascii (toString code))
    else none

def broadcastFailureReason (errStr : Bytes) : FailureReason :=
  if ascii "timeout" <:+: errStr ∨ ascii "deadline" <:+: errStr then .timeout
  else if ascii "connection refused" <:+: errStr ∨ ascii "dial" <:+: errStr ∨
      ascii "no such host" <:+: errStr then .dial
  else .status5xx

structure Node where
  name : Bytes
  mode : ClusterMode

/-- The members of the cluster at a delivery, and what comes of a request to each. -/
abbrev Members := List (PeerInfo × Answer)

def countPost (typ : BatchType) (path : Bytes) (peer : PeerInfo) (answer : Answer) : Metric :=
  match postBinary peer.adminAddr path answer with
  | some err => .broadcastFailure typ (broadcastFailureReason err)
  | none => .httpInvalidation typ

def broadcastEvent (node : Node) (typ : BatchType) (path : Bytes) (members : Members) :
    List (Answer × Metric) :=
  if node.mode ≠ .strong then []
  else (members.filter (·.1.name ≠ node.name)).map fun (peer, answer) =>
    (answer, countPost typ path peer answer)

/-- A call of `flushBatch`: the events, their body, the answers to it if it was posted, and the
frames for the gossip queue. -/
structure Flush (E : Type) where
  events : List E
  body : Except CodecError Bytes
  posts : List (Answer × Metric)
  frames : List Bytes

namespace Flush

variable {E : Type}

/-- The peers read the body as the batch that was sent, and one that does not accept it counts as a
failure. -/
def Accepted (decode : Bytes → Except CodecError (List E)) (typ : BatchType) (f : Flush E) : Prop :=
  ∀ body, f.body = .ok body → decode body = .ok f.events ∧
    ∀ post ∈ f.posts, post.1.accepts = false → ∃ reason, post.2 = .broadcastFailure typ reason

end Flush

def flushBatch {E : Type} (node : Node) (ch : Channel E) (evts : List E) (members : Members) :
    Flush E :=
  let body := ch.http.encode evts
  { events := evts
    body
    posts := match body with
      | .error _ => []
      | .ok _ => broadcastEvent node ch.typ ch.path members
    frames := match ch.gossip.encodeBudgeted evts gossipFrameBudget with
      | .error _ => []
      | .ok frames => frames }

def peerInvalidationBatchHandler {E : Type} (decode : Bytes → Except CodecError (List E))
    (apply : E → Bool) (body : Bytes) : Nat × List E :=
  if 4 * 2 ^ 20 < body.length then (400, [])
  else match decode body with
    | .error _ => (400, [])
    | .ok evts => (if evts.all apply then 200 else 500, evts.takeWhile apply)

/-! ## One queue -/

/-- A queue, deliveries handed out and not made, callers that have made theirs and not said so, and
every delivery so far. -/
structure Lane (E : Type) where
  queue : List E
  flushing : Bool
  overflows : Nat
  callers : List (List E)
  returning : Nat
  flushes : List (Flush E)

inductive Pass where
  | due
  | tick
  | final
  deriving DecidableEq

inductive Stage (E : Type) where
  | take
  | requeue (batch : List E)
  | flush (batch : List E)

/-- What `flushDue` and `drainFlush` do with the batch they have taken. -/
def Stage.afterTake {E : Type} (pass : Pass) (batch : List E) : Option (Stage E) :=
  match pass with
  | .due =>
    if broadcastBatchSize ≤ batch.length then some (.flush batch)
    else if 0 < batch.length then some (.requeue batch)
    else none
  | .tick | .final => if 0 < batch.length then some (.flush batch) else none

namespace Lane

variable {E : Type}

def empty : Lane E := ⟨[], false, 0, [], 0, []⟩

def enqueue (evt : E) (l : Lane E) : Option (List E) × Lane E :=
  if broadcastQueueCap ≤ l.queue.length then (some [evt], { l with overflows := l.overflows + 1 })
  else if 0 < l.queue.length ∨ l.flushing then (none, { l with queue := l.queue ++ [evt] })
  else (some [evt], { l with flushing := true })

def enqueueAsync (evt : E) (l : Lane E) : Option (List E) × Lane E :=
  if broadcastQueueCap ≤ l.queue.length then (some [evt], { l with overflows := l.overflows + 1 })
  else (none, { l with queue := l.queue ++ [evt] })

def doneFlush (l : Lane E) : Lane E := { l with flushing := false }

def takeBatch (l : Lane E) : List E × Lane E := (l.queue, { l with queue := [] })

def requeue (batch : List E) (l : Lane E) : Lane E := { l with queue := batch ++ l.queue }

def flush (node : Node) (ch : Channel E) (evts : List E) (members : Members) (l : Lane E) : Lane E :=
  if evts.isEmpty then l
  else { l with flushes := l.flushes ++ [flushBatch node ch evts members] }

def handOut : Option (List E) × Lane E → Lane E × Nat
  | (some batch, l) => ({ l with callers := l.callers ++ [batch] }, 0)
  | (none, l) => (l, 1)

def callerFlush (node : Node) (ch : Channel E) (i : Nat) (members : Members) (l : Lane E) : Lane E :=
  match l.callers[i]? with
  | none => l
  | some batch =>
    { l.flush node ch batch members with
      callers := l.callers.eraseIdx i
      returning := l.returning + 1 }

def callerDone (l : Lane E) : Lane E :=
  match l.returning with
  | 0 => l
  | n + 1 => { l.doneFlush with returning := n }

/-- A step of the loop in this queue, and its stage then, if it is not through. -/
def loopStep (node : Node) (ch : Channel E) (pass : Pass) (members : Members) (l : Lane E) :
    Stage E → Lane E × Option (Stage E)
  | .take => (l.takeBatch.2, Stage.afterTake pass l.takeBatch.1)
  | .requeue batch => (l.requeue batch, none)
  | .flush batch => (l.flush node ch batch members, none)

end Lane

def enqueuePurge : PurgeEvent → Lane PurgeEvent → Option (List PurgeEvent) × Lane PurgeEvent :=
  Lane.enqueue

def enqueuePurgeAsync : PurgeEvent → Lane PurgeEvent → Option (List PurgeEvent) × Lane PurgeEvent :=
  Lane.enqueueAsync

def enqueueRefresh :
    RefreshEvent → Lane RefreshEvent → Option (List RefreshEvent) × Lane RefreshEvent :=
  Lane.enqueue

/-! ## The machine -/

/-- Where the loop is: in its `select`, at work on one of the queues, or gone. -/
inductive Phase where
  | select
  | purge (pass : Pass) (stage : Stage PurgeEvent)
  | refresh (pass : Pass) (stage : Stage RefreshEvent)
  | returned

def Phase.afterPurge (pass : Pass) : Option (Stage PurgeEvent) → Phase
  | some stage => .purge pass stage
  | none => .refresh pass .take

def Phase.afterRefresh (pass : Pass) : Option (Stage RefreshEvent) → Phase
  | some stage => .refresh pass stage
  | none => if pass = .final then .returned else .select

/-- The batcher, with the callers that have queued and not signalled. -/
structure Batcher where
  purge : Lane PurgeEvent
  refresh : Lane RefreshEvent
  signals : Nat
  wakeup : Bool
  done : Bool
  phase : Phase

def Batcher.new : Batcher := ⟨.empty, .empty, 0, false, false, .select⟩

inductive Act where
  | broadcastPurge (key : Key) (varyKey : Bytes) (now : Int) (seq : UInt64)
  | broadcastPurgeAsync (key : Key) (varyKey : Bytes) (now : Int) (seq : UInt64)
  | broadcastPurges (keys : List (Key × UInt64)) (now : Int) (members : Members)
  | broadcastRefresh (key : Key) (now : Int) (seq : UInt64)
  | flushPurge (i : Nat) (members : Members)
  | donePurge
  | flushRefresh (i : Nat) (members : Members)
  | doneRefresh
  | signal
  | wake
  | tick
  | stop
  | loop (members : Members)
  | close

namespace Batcher

def purgeEvent (node : Node) (key : Key) (varyKey : Bytes) (now : Int) (seq : UInt64) : PurgeEvent :=
  { key, varyKey, issuer := node.name, issuedAt := now, seq }

def refreshEvent (node : Node) (key : Key) (now : Int) (seq : UInt64) : RefreshEvent :=
  { key, issuer := node.name, issuedAt := now, seq }

def withPurge (b : Batcher) (r : Lane PurgeEvent × Nat) : Batcher :=
  { b with purge := r.1, signals := b.signals + r.2 }

def withRefresh (b : Batcher) (r : Lane RefreshEvent × Nat) : Batcher :=
  { b with refresh := r.1, signals := b.signals + r.2 }

/-- The loop leaves its `select` for the first of the queues. -/
def enter (b : Batcher) (pass : Pass) : Batcher :=
  match b.phase with
  | .select => { b with phase := .purge pass .take }
  | _ => b

def loopStep (node : Node) (members : Members) (b : Batcher) : Batcher :=
  match b.phase with
  | .select | .returned => b
  | .purge pass stage =>
    let r := b.purge.loopStep node purgeChannel pass members stage
    { b with purge := r.1, phase := .afterPurge pass r.2 }
  | .refresh pass stage =>
    let r := b.refresh.loopStep node refreshChannel pass members stage
    { b with refresh := r.1, phase := .afterRefresh pass r.2 }

def step (node : Node) (b : Batcher) : Act → Batcher
  | .broadcastPurge key varyKey now seq =>
    b.withPurge (enqueuePurge (purgeEvent node key varyKey now seq) b.purge |> Lane.handOut)
  | .broadcastPurgeAsync key varyKey now seq =>
    b.withPurge (enqueuePurgeAsync (purgeEvent node key varyKey now seq) b.purge |> Lane.handOut)
  | .broadcastPurges keys now members =>
    let evts := keys.map fun (key, seq) => purgeEvent node key [] now seq
    { b with purge := b.purge.flush node purgeChannel evts members }
  | .broadcastRefresh key now seq =>
    b.withRefresh (enqueueRefresh (refreshEvent node key now seq) b.refresh |> Lane.handOut)
  | .flushPurge i members => { b with purge := b.purge.callerFlush node purgeChannel i members }
  | .donePurge => { b with purge := b.purge.callerDone }
  | .flushRefresh i members =>
    { b with refresh := b.refresh.callerFlush node refreshChannel i members }
  | .doneRefresh => { b with refresh := b.refresh.callerDone }
  | .signal =>
    match b.signals with
    | 0 => b
    | n + 1 => { b with signals := n, wakeup := true }
  | .wake =>
    match b.phase, b.wakeup with
    | .select, true => { b.enter .due with wakeup := false }
    | _, _ => b
  | .tick => b.enter .tick
  | .stop => if b.done then b.enter .final else b
  | .loop members => b.loopStep node members
  | .close => { b with done := true }

end Batcher

/-! ## Batches that fit

A batch fits when the receiver's limit does not cut it and its events survive the trip. What a lane
holds, hands out and delivers fits as long as nothing is put back before a full queue.
-/

theorem countPost_of_not_accepts {typ : BatchType} {path : Bytes} {peer : PeerInfo} {a : Answer}
    (hplain : a.Plain) (h : a.accepts = false) :
    ∃ reason, countPost typ path peer a = .broadcastFailure typ reason := by
  cases a with
  | err text => exact ⟨_, rfl⟩
  | status code =>
    rw [countPost, postBinary, if_pos (hplain h)]
    exact ⟨_, rfl⟩

def Members.Plain (members : Members) : Prop := ∀ m ∈ members, m.2.Plain

section

variable {E : Type} {node : Node} {ch : Channel E} {carry : E → E} {members : Members}

def Fits (carry : E → E) (batch : List E) : Prop :=
  batch.length ≤ batchMaxEvents ∧ ∀ evt ∈ batch, carry evt = evt

theorem fits_nil : Fits carry [] := ⟨zero_le _, nofun⟩

theorem Fits.single {evt : E} (h : carry evt = evt) : Fits carry [evt] :=
  ⟨le_add_left 1 4095, fun _ hx => mem_singleton.1 hx ▸ h⟩

theorem Fits.append {batch rest : List E} (h : Fits carry batch) (h' : Fits carry rest)
    (hlen : batch.length + rest.length ≤ batchMaxEvents) : Fits carry (batch ++ rest) :=
  ⟨by rwa [length_append], forall_mem_append.2 ⟨h.2, h'.2⟩⟩

/-- Everything in the lane fits, and every delivery so far was accepted. -/
structure Lane.Fit (ch : Channel E) (carry : E → E) (l : Lane E) : Prop where
  queue : Fits carry l.queue
  callers : ∀ batch ∈ l.callers, Fits carry batch
  flushes : ∀ f ∈ l.flushes, f.Accepted ch.http.decode ch.typ

def Stage.Fit (carry : E → E) : Stage E → Prop
  | .take => True
  | .requeue batch => Fits carry batch
  | .flush batch => Fits carry batch

def Stage.Room (l : Lane E) : Stage E → Prop
  | .requeue batch => batch.length + l.queue.length ≤ batchMaxEvents
  | _ => True

theorem Stage.afterTake_fit {batch : List E} (h : Fits carry batch) (pass : Pass) :
    ∀ next ∈ Stage.afterTake pass batch, next.Fit carry := by
  intro next hnext
  cases pass <;> rw [afterTake] at hnext <;> split_ifs at hnext <;> cases hnext <;> exact h

namespace Lane.Fit

variable {l : Lane E} {evt : E} (h : l.Fit ch carry)
include h

theorem queued (hevt : carry evt = evt) (hroom : ¬ broadcastQueueCap ≤ l.queue.length) :
    Lane.Fit ch carry { l with queue := l.queue ++ [evt] } := by
  refine ⟨h.queue.append (.single hevt) ?_, h.callers, h.flushes⟩
  rw [broadcastQueueCap] at hroom
  rw [batchMaxEvents, length_singleton]
  omega

theorem handed {batch : List E} (hbatch : Fits carry batch) :
    Lane.Fit ch carry { l with callers := l.callers ++ [batch] } :=
  ⟨h.queue, forall_mem_concat.2 ⟨h.callers, hbatch⟩, h.flushes⟩

theorem enqueue (hevt : carry evt = evt) : (handOut (l.enqueue evt)).1.Fit ch carry := by
  rw [Lane.enqueue]
  split_ifs with hfull hbusy
  · exact handed (l := { l with overflows := l.overflows + 1 })
      ⟨h.queue, h.callers, h.flushes⟩ (.single hevt)
  · exact h.queued hevt hfull
  · exact handed (l := { l with flushing := true }) ⟨h.queue, h.callers, h.flushes⟩ (.single hevt)

theorem enqueueAsync (hevt : carry evt = evt) : (handOut (l.enqueueAsync evt)).1.Fit ch carry := by
  rw [Lane.enqueueAsync]
  split_ifs with hfull
  · exact handed (l := { l with overflows := l.overflows + 1 })
      ⟨h.queue, h.callers, h.flushes⟩ (.single hevt)
  · exact h.queued hevt hfull

theorem callerDone : l.callerDone.Fit ch carry := by
  rw [Lane.callerDone]
  cases l.returning with
  | zero => exact h
  | succ n => exact ⟨h.queue, h.callers, h.flushes⟩

variable (hch : ch.http.Lawful carry) (hplain : members.Plain)
include hch hplain

theorem flush (node : Node) {evts : List E} (hevts : Fits carry evts) :
    (l.flush node ch evts members).Fit ch carry := by
  rw [Lane.flush]
  split_ifs
  · exact h
  · refine ⟨h.queue, h.callers, fun f hf => ?_⟩
    rcases mem_append.1 hf with hf | hf
    · exact h.flushes f hf
    · rw [mem_singleton.1 hf]
      intro body hbody
      refine ⟨?_, fun post hpost hreject => ?_⟩
      · rw [BatchCodec.decode_encode hch hevts.1 hbody, map_congr_left hevts.2, map_id']
        rfl
      have hbody : ch.http.encode evts = .ok body := hbody
      rw [flushBatch, hbody] at hpost
      rw [broadcastEvent] at hpost
      split_ifs at hpost
      · exact nomatch hpost
      · obtain ⟨m, hm, rfl⟩ := mem_map.1 hpost
        exact countPost_of_not_accepts (hplain m (mem_of_mem_filter hm)) hreject

theorem callerFlush (i : Nat) : (l.callerFlush node ch i members).Fit ch carry := by
  rw [Lane.callerFlush]
  cases hi : l.callers[i]? with
  | none => exact h
  | some batch =>
    have hflush := h.flush hch hplain node (h.callers batch (mem_of_getElem? hi))
    exact ⟨hflush.queue, fun b hb => h.callers b (mem_of_mem_eraseIdx hb), hflush.flushes⟩

theorem loopStep (node : Node) (pass : Pass) {stage : Stage E} (hstage : stage.Fit carry)
    (hroom : stage.Room l) :
    (l.loopStep node ch pass members stage).1.Fit ch carry ∧
      ∀ next ∈ (l.loopStep node ch pass members stage).2, next.Fit carry := by
  cases stage with
  | take =>
    exact ⟨⟨fits_nil, h.callers, h.flushes⟩, Stage.afterTake_fit h.queue pass⟩
  | requeue batch =>
    exact ⟨⟨hstage.append h.queue hroom, h.callers, h.flushes⟩, by rintro _ ⟨⟩⟩
  | flush batch => exact ⟨h.flush hch hplain node hstage, by rintro _ ⟨⟩⟩

end Lane.Fit

end

/-! ## Every run -/

def Phase.Room (b : Batcher) : Phase → Prop
  | .purge _ stage => stage.Room b.purge
  | .refresh _ stage => stage.Room b.refresh
  | _ => True

/-- What the condition of an act asks for. Clock readings survive the trip, a direct batch is within
the receiver's limit, what the loop puts back has room, and peers that refuse say so. -/
def Act.Sound (b : Batcher) : Act → Prop
  | .broadcastPurge _ _ now _ | .broadcastPurgeAsync _ _ now _ | .broadcastRefresh _ now _ =>
    Carried now
  | .broadcastPurges keys now members =>
    keys.length ≤ batchMaxEvents ∧ Carried now ∧ members.Plain
  | .flushPurge _ members | .flushRefresh _ members => members.Plain
  | .loop members => members.Plain ∧ b.phase.Room b
  | _ => True

namespace Phase

def Fit : Phase → Prop
  | .purge _ stage => stage.Fit PurgeEvent.carry
  | .refresh _ stage => stage.Fit RefreshEvent.carry
  | _ => True

theorem fit_afterPurge {pass : Pass} : ∀ {next : Option (Stage PurgeEvent)},
    (∀ stage ∈ next, stage.Fit PurgeEvent.carry) → (afterPurge pass next).Fit
  | none, _ => trivial
  | some stage, h => h stage rfl

theorem fit_afterRefresh {pass : Pass} : ∀ {next : Option (Stage RefreshEvent)},
    (∀ stage ∈ next, stage.Fit RefreshEvent.carry) → (afterRefresh pass next).Fit
  | none, _ => by cases pass <;> trivial
  | some stage, h => h stage rfl

end Phase

namespace Batcher

def Accepted (b : Batcher) : Prop :=
  (∀ f ∈ b.purge.flushes, f.Accepted decodePurgeBatchHTTP .purgeBatch) ∧
    ∀ f ∈ b.refresh.flushes, f.Accepted decodeRefreshBatchHTTP .refreshBatch

structure Fit (b : Batcher) : Prop where
  purge : b.purge.Fit purgeChannel PurgeEvent.carry
  refresh : b.refresh.Fit refreshChannel RefreshEvent.carry
  phase : b.phase.Fit

theorem fit_new : new.Fit := by
  refine ⟨⟨fits_nil, ?_, ?_⟩, ⟨fits_nil, ?_, ?_⟩, trivial⟩ <;>
    exact nofun

theorem Fit.accepted {b : Batcher} (h : b.Fit) : b.Accepted := ⟨h.purge.flushes, h.refresh.flushes⟩

variable {b : Batcher} {node : Node} {members : Members}

theorem Fit.withPurge (h : b.Fit) {r : Lane PurgeEvent × Nat}
    (hr : r.1.Fit purgeChannel PurgeEvent.carry) : (b.withPurge r).Fit := ⟨hr, h.refresh, h.phase⟩

theorem Fit.withRefresh (h : b.Fit) {r : Lane RefreshEvent × Nat}
    (hr : r.1.Fit refreshChannel RefreshEvent.carry) : (b.withRefresh r).Fit :=
  ⟨h.purge, hr, h.phase⟩

theorem Fit.enter (h : b.Fit) (pass : Pass) : (b.enter pass).Fit := by
  rw [Batcher.enter]
  split
  · exact ⟨h.purge, h.refresh, trivial⟩
  · exact h

theorem Fit.loopStep (h : b.Fit) (hsound : (Act.loop members).Sound b) :
    (b.loopStep node members).Fit := by
  obtain ⟨hplain, hroom⟩ := hsound
  have hphase := h.phase
  rw [Batcher.loopStep]
  split <;> rename_i hat
  · exact h
  · exact h
  · rw [hat] at hroom hphase
    rename_i pass stage
    have hlane := h.purge.loopStep purgeBatchHTTP_lawful hplain node pass hphase hroom
    exact ⟨hlane.1, h.refresh, Phase.fit_afterPurge hlane.2⟩
  · rw [hat] at hroom hphase
    rename_i pass stage
    have hlane := h.refresh.loopStep refreshBatchHTTP_lawful hplain node pass hphase hroom
    exact ⟨h.purge, hlane.1, Phase.fit_afterRefresh hlane.2⟩

variable {seqs : List UInt64} {now : Int}

theorem fits_direct {keys : List (Key × UInt64)} (hlen : keys.length ≤ batchMaxEvents)
    (hnow : Carried now) :
    Fits PurgeEvent.carry (keys.map fun (key, seq) => purgeEvent node key [] now seq) := by
  refine ⟨by rwa [length_map], fun evt hevt => ?_⟩
  obtain ⟨key, -, rfl⟩ := mem_map.1 hevt
  exact PurgeEvent.carry_eq hnow

theorem Fit.step (h : b.Fit) {act : Act} (hact : act.Sound b) : (b.step node act).Fit := by
  cases act with
  | broadcastPurge key varyKey now seq =>
    exact h.withPurge (h.purge.enqueue (PurgeEvent.carry_eq hact))
  | broadcastPurgeAsync key varyKey now seq =>
    exact h.withPurge (h.purge.enqueueAsync (PurgeEvent.carry_eq hact))
  | broadcastPurges keys now members =>
    obtain ⟨hlen, hnow, hplain⟩ := hact
    exact ⟨h.purge.flush purgeBatchHTTP_lawful hplain node (fits_direct hlen hnow), h.refresh, h.phase⟩
  | broadcastRefresh key now seq =>
    exact h.withRefresh (h.refresh.enqueue (RefreshEvent.carry_eq hact))
  | flushPurge i members =>
    exact ⟨h.purge.callerFlush purgeBatchHTTP_lawful hact i, h.refresh, h.phase⟩
  | donePurge => exact ⟨h.purge.callerDone, h.refresh, h.phase⟩
  | flushRefresh i members =>
    exact ⟨h.purge, h.refresh.callerFlush refreshBatchHTTP_lawful hact i, h.phase⟩
  | doneRefresh => exact ⟨h.purge, h.refresh.callerDone, h.phase⟩
  | signal =>
    rw [Batcher.step]
    cases b.signals with
    | zero => exact h
    | succ n => exact ⟨h.purge, h.refresh, h.phase⟩
  | wake =>
    rw [Batcher.step]
    split
    · have henter := h.enter .due
      exact ⟨henter.purge, henter.refresh, henter.phase⟩
    · exact h
  | tick => exact h.enter .tick
  | stop =>
    rw [Batcher.step]
    split_ifs
    · exact h.enter .final
    · exact h
  | loop members => exact h.loopStep hact
  | close => exact ⟨h.purge, h.refresh, h.phase⟩

/-- In every run of sound acts, peers read every body as the batch it was made of, and no refusal
counts as a delivery. -/
theorem batches_accepted_of_sound (node : Node) {acts : List Act}
    (h : Along (step node) (fun b act => act.Sound b) new acts) :
    Always (step node) Accepted new acts :=
  (always_of_along (fun _ _ hfit hact => hfit.step hact) fit_new h).mono fun _ hfit => hfit.accepted

theorem batches_accepted_sample :
    Always (step ⟨ascii "a", .strong⟩) Accepted new
      [.broadcastPurge (copyFixed 16 []) [] 0 1, .broadcastPurgeAsync (copyFixed 16 []) [] 0 2,
        .signal, .wake, .loop [], .loop [], .flushPurge 0 [(⟨ascii "b", []⟩, .status 200)],
        .donePurge, .broadcastPurges [(copyFixed 16 [], 3)] 0 [(⟨ascii "b", []⟩, .status 503)]] := by
  have hzero : Carried 0 := .inl rfl
  have hok : Members.Plain [(⟨ascii "b", []⟩, .status 200)] := by
    intro m hm
    rw [mem_singleton.1 hm]
    exact fun hreject => absurd hreject (by decide)
  have hdown : Members.Plain [(⟨ascii "b", []⟩, .status 503)] := by
    intro m hm
    rw [mem_singleton.1 hm]
    exact fun _ => (by decide : 500 ≤ 503)
  have hnone : Members.Plain [] := fun m hm => nomatch hm
  exact batches_accepted_of_sound _ ⟨hzero, hzero, trivial, trivial, ⟨hnone, trivial⟩,
    ⟨hnone, (by decide : 1 + 0 ≤ 4096)⟩, hok, trivial, ⟨by decide, hzero, hdown⟩, trivial⟩

/-! A batch below the threshold is held while it is put back, with the lock released in between: the
queue can fill up behind the loop's back. -/

variable {key : Key}

theorem run_async (h : b.purge.queue.length + seqs.length ≤ broadcastQueueCap) :
    run (step node) b (seqs.map (.broadcastPurgeAsync key [] now)) =
      { b with
        purge := { b.purge with
          queue := b.purge.queue ++ seqs.map (purgeEvent node key [] now) }
        signals := b.signals + seqs.length } := by
  induction seqs generalizing b with
  | nil => simp
  | cons seq seqs ih =>
    rw [length_cons] at h
    have hroom : ¬ broadcastQueueCap ≤ b.purge.queue.length := by omega
    have hstep : b.step node (.broadcastPurgeAsync key [] now seq) =
        { b with
          purge := { b.purge with queue := b.purge.queue ++ [purgeEvent node key [] now seq] }
          signals := b.signals + 1 } := by
      rw [step, enqueuePurgeAsync, Lane.enqueueAsync, if_neg hroom]
      rfl
    rw [map_cons, run_cons, hstep, ih]
    · simp [Nat.add_assoc, Nat.add_comm 1]
    · simp only [length_append, length_singleton]
      omega

/-- One purge is queued and taken, `seqs` more come in before it is put back, then a tick. -/
def overtaken (key : Key) (now : Int) (seqs : List UInt64) (members : Members) : List Act :=
  [.broadcastPurgeAsync key [] now 0, .signal, .wake, .loop []] ++
    seqs.map (.broadcastPurgeAsync key [] now) ++ [.loop [], .loop [], .tick, .loop [], .loop members]

theorem flushes_overtaken (h : seqs.length ≤ broadcastQueueCap) :
    (run (step node) new (overtaken key now seqs members)).purge.flushes =
      [flushBatch node purgeChannel ((0 :: seqs).map (purgeEvent node key [] now)) members] := by
  let held : Batcher :=
    { new with phase := .purge .due (.requeue [purgeEvent node key [] now 0]) }
  have hheld : run (step node) new [.broadcastPurgeAsync key [] now 0, .signal, .wake, .loop []] =
      held := rfl
  have hroom : held.purge.queue.length + seqs.length ≤ broadcastQueueCap := by
    show 0 + seqs.length ≤ _
    rwa [Nat.zero_add]
  rw [overtaken, run_append, run_append, hheld, run_async hroom]
  rfl

/-- The body of an overfull delivery: the peer refuses it and that counts as a delivery. -/
def Refused (f : Flush PurgeEvent) : Prop :=
  ∃ body, f.body = .ok body ∧ (decodePurgeBatchHTTP body).isOk = false ∧
    (peerInvalidationBatchHandler decodePurgeBatchHTTP (fun _ => true) body).1 = 400 ∧
    f.posts = [(.status 400, .httpInvalidation .purgeBatch)]

theorem refused_of_overfull {evts : List PurgeEvent} {peer : PeerInfo} (hmode : node.mode = .strong)
    (hpeer : peer.name ≠ node.name) (hlow : batchMaxEvents < evts.length)
    (hhigh : evts.length < 256 ^ batchCountLen)
    (hput : ∀ evt ∈ evts, ∃ bs, putPurgePayload evt = .ok bs) :
    Refused (flushBatch node purgeChannel evts [(peer, .status 400)]) := by
  obtain ⟨body, hbody⟩ := BatchCodec.exists_encode (c := purgeBatchHTTP) hput
  have hdecode : decodePurgeBatchHTTP body = .error (.countExceeds "purge batch" evts.length) :=
    BatchCodec.decode_encode_overfull hlow hhigh hbody
  refine ⟨body, hbody, by rw [hdecode]; rfl, ?_, ?_⟩
  · rw [peerInvalidationBatchHandler, hdecode]
    split_ifs <;> rfl
  · have hhttp : purgeChannel.http.encode evts = .ok body := hbody
    rw [flushBatch, hhttp]
    rw [broadcastEvent, if_neg (not_not_intro hmode), filter_cons_of_pos (by simpa using hpeer)]
    rfl

theorem refused_of_length {name : Bytes} {peer : PeerInfo}
    (hname : name.length ≤ maxStringLen) (hpeer : peer.name ≠ name) (hlen : seqs.length = 4097) :
    Refused (flushBatch ⟨name, .strong⟩ purgeChannel (seqs.map (purgeEvent ⟨name, .strong⟩ key [] now))
      [(peer, .status 400)]) := by
  have hlength : (seqs.map (purgeEvent ⟨name, .strong⟩ key [] now)).length = 4097 := by
    rw [length_map, hlen]
  refine refused_of_overfull rfl hpeer (by rw [hlength]; decide) (by rw [hlength]; decide) ?_
  intro evt hevt
  obtain ⟨seq, -, rfl⟩ := mem_map.1 hevt
  have hissuer : putString name = .ok (putLE 2 name.length ++ name) :=
    if_neg (not_lt.2 hname)
  show ∃ bs, (putString name >>= _) = Except.ok bs
  rw [hissuer]
  exact ⟨_, rfl⟩

theorem overfull_batches_refused :
    (∃ seqs, ∃ f ∈ (run (step ⟨ascii "a", .strong⟩) new
        (overtaken (copyFixed 16 []) 0 seqs [(⟨ascii "b", []⟩, .status 400)])).purge.flushes,
        Refused f) ∧
      ∃ keys, ∃ f ∈ (run (step ⟨ascii "a", .strong⟩) new
        [.broadcastPurges keys 0 [(⟨ascii "b", []⟩, .status 400)]]).purge.flushes, Refused f := by
  have hrefused (seqs : List UInt64) (hlen : seqs.length = 4097) :
      Refused (flushBatch ⟨ascii "a", .strong⟩ purgeChannel
        (seqs.map (purgeEvent ⟨ascii "a", .strong⟩ (copyFixed 16 []) [] 0))
        [(⟨ascii "b", []⟩, .status 400)]) :=
    refused_of_length (by decide) (by decide) hlen
  constructor
  · let seqs := (range' 1 4096).map UInt64.ofNat
    have hlen : seqs.length = 4096 := by rw [length_map, length_range']
    refine ⟨seqs, _, ?_, hrefused (0 :: seqs) (by rw [length_cons, hlen])⟩
    rw [flushes_overtaken (le_of_eq hlen)]
    exact mem_singleton_self _
  · let seqs := (range' 1 4097).map UInt64.ofNat
    have hlen : seqs.length = 4097 := by rw [length_map, length_range']
    refine ⟨seqs.map (copyFixed 16 [], ·), _, ?_, hrefused seqs hlen⟩
    show _ ∈ (Lane.flush _ _ _ _ _).flushes
    rw [map_map]
    exact mem_singleton_self _

end Batcher

end Bouine.Cluster
