import Mathlib.Data.Finset.Card
import Bouine.Lib.Bytes
import Bouine.Lib.Liveness

/-! # The gossip queue

Invalidation frames wait in a queue (`QueueBroadcast`, `internal/cluster/cluster.go`) until
memberlist asks what it may send along with a gossip message (`GetBroadcasts`), once for each target
it has chosen. What it is given goes to that target. A receiver does not pass a frame on
(`NotifyMsg`).
-/

namespace Bouine.Cluster

open Lib Lib.Liveness List Nat

def gossipMaxFrame : Nat := 1395

inductive ClusterMode where
  | strong
  | eventual
  deriving DecidableEq

namespace Gossip

/-! ## The queue -/

/-- The loop of `GetBroadcasts`: the frames that are returned and those that stay. -/
def drain (overhead limit : Int) : Int → List Bytes → List Bytes × List Bytes
  | _, [] => ([], [])
  | used, b :: queue =>
    if gossipMaxFrame < b.length then drain overhead limit used queue
    else if limit < used + overhead + b.length then
      let (out, remaining) := drain overhead limit used queue
      (out, b :: remaining)
    else
      let (out, remaining) := drain overhead limit (used + overhead + b.length) queue
      (b :: out, remaining)

def getBroadcasts (queue : List Bytes) (overhead limit : Int) : List Bytes × List Bytes :=
  drain overhead limit 0 queue

def queueBroadcast {Peer : Type*} (mode : ClusterMode) (members : List Peer) (queue : List Bytes)
    (msg : Bytes) : List Bytes × List Peer :=
  (queue ++ [msg], if mode = .strong then [] else members)

/-- A node queues a frame, or memberlist has chosen a target. -/
inductive Act (Peer : Type*) where
  | queue (msg : Bytes)
  | round (target : Peer) (overhead limit : Int)

section

variable {Peer : Type*} (mode : ClusterMode) (members : List Peer)

def step (queue : List Bytes) : Act Peer → List Bytes
  | .queue msg => (queueBroadcast mode members queue msg).1
  | .round _ overhead limit => (getBroadcasts queue overhead limit).2

def sent (queue : List Bytes) : Act Peer → List (Peer × Bytes)
  | .queue msg => (queueBroadcast mode members queue msg).2.map (·, msg)
  | .round target overhead limit => (getBroadcasts queue overhead limit).1.map (target, ·)

def queueAt (acts : Nat → Act Peer) : Nat → List Bytes := trace (step mode members) [] acts

/-- From time `n` on, the peer is sent the frame. -/
def Reaches (acts : Nat → Act Peer) (n : Nat) (msg : Bytes) (peer : Peer) : Prop :=
  ∃ m, n ≤ m ∧ (peer, msg) ∈ sent mode members (queueAt mode members acts m) (acts m)

end

section

variable {Peer : Type*}

def Act.Roomy (peer : Peer) (a : Act Peer) : Prop :=
  ∃ overhead limit, a = .round peer overhead limit ∧ gossipMaxFrame + overhead ≤ limit

/-- Targets are live peers, and every live peer is chosen again and again. -/
structure Fair (peers : Finset Peer) (acts : Nat → Act Peer) : Prop where
  live : ∀ n target overhead limit, acts n = .round target overhead limit → target ∈ peers
  often : ∀ peer ∈ peers, Often (Act.Roomy peer) acts

end

/-! ## Draining -/

section

variable {overhead limit used : Int} {queue : List Bytes} {msg : Bytes}

theorem drain_perm (overhead limit used : Int) (queue : List Bytes) :
    ((drain overhead limit used queue).1 ++ (drain overhead limit used queue).2).Perm
      (queue.filter fun b => b.length ≤ gossipMaxFrame) := by
  induction queue generalizing used with
  | nil => exact .refl _
  | cons b queue ih =>
    unfold drain
    split_ifs with hlong hfull
    · rw [filter_cons_of_neg (by simpa using hlong)]
      exact ih used
    · rw [filter_cons_of_pos (by simpa using hlong)]
      exact perm_middle.trans ((ih used).cons b)
    · rw [filter_cons_of_pos (by simpa using hlong)]
      exact (ih _).cons b

/-- A frame that is not returned keeps its place, or moves up if the first one has room. -/
theorem returned_or_kept {k : Nat} (hk : queue[k]? = some msg) (hlen : msg.length ≤ gossipMaxFrame) :
    msg ∈ (drain overhead limit used queue).1 ∨
      ∃ j ≤ k, (drain overhead limit used queue).2[j]? = some msg ∧
        (used + overhead + gossipMaxFrame ≤ limit → j < k) := by
  induction queue generalizing used k with
  | nil => simp at hk
  | cons b queue ih =>
    unfold drain
    cases k with
    | zero =>
      obtain rfl : b = msg := by simpa using hk
      rw [if_neg (not_lt.2 hlen)]
      split_ifs
      · exact .inr ⟨0, le_rfl, rfl, by omega⟩
      · exact .inl (.head _)
    | succ k =>
      split_ifs
      · exact (ih hk).imp_right fun ⟨j, hj, hmsg, _⟩ => ⟨j, by omega, hmsg, by omega⟩
      · exact (ih hk).imp_right fun ⟨j, hj, hmsg, _⟩ => ⟨j + 1, by omega, hmsg, by omega⟩
      · exact (ih hk).imp (mem_cons_of_mem _) fun ⟨j, hj, hmsg, _⟩ => ⟨j, by omega, hmsg, by omega⟩

end

/-! ## Delivery -/

section

variable {Peer : Type*} (members : List Peer) {acts : Nat → Act Peer} {n : Nat} {msg : Bytes}

theorem mem_queue_of_queued (hqueue : acts n = .queue msg) :
    ∃ k : Nat, (queueAt .strong members acts (n + 1))[k]? = some msg := by
  refine mem_iff_getElem?.1 ?_
  show msg ∈ step .strong members (queueAt .strong members acts n) (acts n)
  rw [hqueue]
  exact mem_append_right _ (.head _)

theorem exists_reached {peers : Finset Peer} (hfair : Fair peers acts) {peer : Peer}
    (hpeer : peer ∈ peers) (hlen : msg.length ≤ gossipMaxFrame) (hqueue : acts n = .queue msg) :
    ∃ target ∈ peers, Reaches .strong members acts n msg target := by
  obtain ⟨k, hk⟩ := mem_queue_of_queued members hqueue
  have hreturned := exists_event_of_rank (step .strong members) (s := [])
    (fun k queue => queue[k]? = some msg)
    (fun queue a => ∃ target overhead limit, a = .round target overhead limit ∧
      msg ∈ (getBroadcasts queue overhead limit).1)
    (fun k queue a hk => ?_) (fun k queue a hk hroomy => ?_) (hfair.often peer hpeer) hk
  · obtain ⟨m, hm, target, overhead, limit, hround, hmem⟩ := hreturned
    refine ⟨target, hfair.live m target overhead limit hround, m, by omega, ?_⟩
    rw [hround]
    exact mem_map_of_mem hmem
  · cases a with
    | queue msg' => exact .inr ⟨k, le_rfl, by
        rw [step, queueBroadcast, getElem?_append_left (List.getElem?_eq_some_iff.1 hk).1]
        exact hk⟩
    | round target overhead limit =>
      refine (returned_or_kept hk hlen).imp (fun hmem => ?_) fun ⟨j, hj, hmsg, _⟩ => ⟨j, hj, hmsg⟩
      exact ⟨target, overhead, limit, rfl, hmem⟩
  · obtain ⟨overhead, limit, rfl, hroom⟩ := hroomy
    refine (returned_or_kept hk hlen).imp (fun hmem => ?_) fun ⟨j, _, hmsg, hmoved⟩ =>
      ⟨j, hmoved (by omega), hmsg⟩
    exact ⟨peer, overhead, limit, rfl, hmem⟩

/-! ### No second delivery -/

theorem count_step_le {queue : List Bytes} {a : Act Peer} (ha : a ≠ .queue msg) :
    (step .strong members queue a).count msg ≤ queue.count msg ∧
      ∀ peer, (peer, msg) ∈ sent .strong members queue a →
        (step .strong members queue a).count msg + 1 ≤ queue.count msg := by
  cases a with
  | queue other =>
    have hne : other ≠ msg := fun h => ha (h ▸ rfl)
    refine ⟨?_, fun peer hsent => nomatch hsent⟩
    rw [step, queueBroadcast, count_append, count_singleton, if_neg (by simpa using hne)]
    exact le_rfl
  | round target overhead limit =>
    have hcount : (getBroadcasts queue overhead limit).1.count msg +
        (getBroadcasts queue overhead limit).2.count msg ≤ queue.count msg := by
      rw [← count_append, getBroadcasts, (drain_perm overhead limit 0 queue).count_eq]
      exact filter_sublist.count_le _
    refine ⟨(le_add_left _ _).trans hcount, fun peer hsent => ?_⟩
    obtain ⟨b, hb, heq⟩ := mem_map.1 hsent
    obtain ⟨-, rfl⟩ := Prod.mk.inj heq
    have hpos : 0 < (getBroadcasts queue overhead limit).1.count b := count_pos_iff.2 hb
    show (getBroadcasts queue overhead limit).2.count b + 1 ≤ _
    omega

section

variable (honce : ∀ m, acts m = .queue msg → m = n)
include honce

theorem count_before {m : Nat} (hm : m ≤ n) : (queueAt .strong members acts m).count msg = 0 := by
  induction m with
  | zero => rfl
  | succ m ih =>
    have hother : acts m ≠ .queue msg := fun h => by
      have := honce m h
      omega
    exact le_zero.1 ((count_step_le members hother).1.trans_eq (ih (le_of_succ_le hm)))

/-- Once there are at most `k` copies in the queue, there are no more of them later. -/
theorem count_after {k m m' : Nat} (hm : n < m) (hle : m ≤ m')
    (hk : (queueAt .strong members acts m).count msg ≤ k) :
    (queueAt .strong members acts m').count msg ≤ k := by
  refine trace_preserves (step .strong members) (fun queue => queue.count msg ≤ k)
    (fun j hj hcount => ?_) hk hle
  have hother : acts j ≠ .queue msg := fun h => by
    have := honce j h
    omega
  exact (count_step_le members hother).1.trans hcount

theorem lt_of_sent {m : Nat} {peer : Peer}
    (hsent : (peer, msg) ∈ sent .strong members (queueAt .strong members acts m) (acts m)) :
    n < m := by
  by_contra hm
  have hzero := count_before members honce (not_lt.1 hm)
  by_cases hqueue : acts m = .queue msg
  · rw [hqueue] at hsent
    exact nomatch hsent
  · have := (count_step_le members hqueue).2 peer hsent
    omega

theorem not_sent_again {m m' : Nat} {peer peer' : Peer} (hlt : m < m')
    (hsent : (peer, msg) ∈ sent .strong members (queueAt .strong members acts m) (acts m)) :
    (peer', msg) ∉ sent .strong members (queueAt .strong members acts m') (acts m') := by
  intro hsent'
  have hother : ∀ j, n < j → acts j ≠ .queue msg := fun j hj h => by
    have := honce j h
    omega
  have hm := lt_of_sent members honce hsent
  -- one copy at most since it was queued, none since it was sent
  have hone : (queueAt .strong members acts m).count msg ≤ 1 := by
    refine count_after members honce (lt_succ_self n) hm ?_
    have hzero := count_before members honce (le_refl n)
    show (step .strong members (queueAt .strong members acts n) (acts n)).count msg ≤ 1
    by_cases hqueue : acts n = .queue msg
    · rw [hqueue, step, queueBroadcast, count_append, hzero, count_singleton_self]
    · exact (count_step_le members hqueue).1.trans (by omega)
  have hnone : (queueAt .strong members acts (m + 1)).count msg ≤ 0 := by
    have := (count_step_le members (hother m hm)).2 peer hsent
    show (step .strong members (queueAt .strong members acts m) (acts m)).count msg ≤ 0
    omega
  have hlater := count_after members honce (hm.trans (lt_succ_self m)) hlt hnone
  have := (count_step_le members (hother m' (hm.trans hlt))).2 peer' hsent'
  omega

theorem reached_unique {k k' : Nat} {peer peer' : Peer} (h : Reaches .strong members acts k msg peer)
    (h' : Reaches .strong members acts k' msg peer') : peer = peer' := by
  obtain ⟨m, -, hsent⟩ := h
  obtain ⟨m', -, hsent'⟩ := h'
  rcases lt_trichotomy m m' with hlt | rfl | hlt
  · exact absurd hsent' (not_sent_again members honce hlt hsent)
  · cases hact : acts m with
    | queue other =>
      rw [hact] at hsent
      exact nomatch hsent
    | round target overhead limit =>
      rw [hact] at hsent hsent'
      obtain ⟨_, -, heq⟩ := mem_map.1 hsent
      obtain ⟨_, -, heq'⟩ := mem_map.1 hsent'
      exact (Prod.mk.inj heq).1.symm.trans (Prod.mk.inj heq').1
  · exact absurd hsent (not_sent_again members honce hlt hsent')

end

theorem exists_fair {peers : Finset Peer} (hpeers : peers.Nonempty) (msg : Bytes) :
    ∃ acts : Nat → Act Peer, Fair peers acts ∧ acts 0 = .queue msg ∧
      ∀ m, acts m = .queue msg → m = 0 := by
  have hlen : 0 < peers.toList.length := by
    rw [Finset.length_toList]
    exact hpeers.card_pos
  let target (n : Nat) : Peer := peers.toList.get ⟨n % peers.toList.length, mod_lt n hlen⟩
  refine ⟨fun n => n.casesOn (.queue msg) fun n => .round (target n) 0 gossipMaxFrame,
    ⟨?_, ?_⟩, rfl, ?_⟩
  · intro n p overhead limit hround
    cases n with
    | zero => cases hround
    | succ n =>
      cases hround
      exact Finset.mem_toList.1 (get_mem _ _)
  · intro peer hpeer n
    obtain ⟨⟨i, hi⟩, hget⟩ := get_of_mem (Finset.mem_toList.2 hpeer)
    have hmod : (n * peers.toList.length + i) % peers.toList.length = i := by
      rw [mul_add_mod_self_right, mod_eq_of_lt hi]
    have htarget : target (n * peers.toList.length + i) = peer := by
      simp only [target, hmod, hget]
    refine ⟨n * peers.toList.length + i + 1, ?_, 0, gossipMaxFrame, ?_, by omega⟩
    · have := Nat.le_mul_of_pos_right n hlen
      omega
    · simp only [htarget]
  · intro m hqueue
    cases m with
    | zero => rfl
    | succ m => cases hqueue

/-- Queued frames reach all live peers, however the targets are chosen, exactly if there is at most
one. -/
theorem queued_frames_reach_all_peers_iff (peers : Finset Peer) :
    (∀ acts, Fair peers acts → ∀ n msg, acts n = .queue msg → msg.length ≤ gossipMaxFrame →
      ∀ peer ∈ peers, Reaches .strong members acts n msg peer) ↔ peers.card ≤ 1 := by
  rw [Finset.card_le_one]
  constructor
  · intro h peer hpeer peer' hpeer'
    obtain ⟨acts, hfair, hqueue, honce⟩ := exists_fair ⟨peer, hpeer⟩ []
    have hreach := h acts hfair 0 [] hqueue (zero_le _)
    exact reached_unique members honce (hreach peer hpeer) (hreach peer' hpeer')
  · intro hone acts hfair n msg hqueue hlen peer hpeer
    obtain ⟨target, htarget, hreach⟩ := exists_reached members hfair hpeer hlen hqueue
    rwa [hone peer hpeer target htarget]

def alternating : Nat → Act Nat
  | 0 => .queue (ascii "frame")
  | n + 1 => .round (n % 2) 3 1398

theorem second_peer_never_reached :
    Fair {0, 1} alternating ∧ alternating 0 = .queue (ascii "frame") ∧
      Reaches .strong [0, 1] alternating 0 (ascii "frame") 0 ∧
        ¬ Reaches .strong [0, 1] alternating 0 (ascii "frame") 1 := by
  have honce : ∀ m, alternating m = .queue (ascii "frame") → m = 0 := by
    intro m hqueue
    cases m with
    | zero => rfl
    | succ m => cases hqueue
  have hfirst : Reaches .strong [0, 1] alternating 0 (ascii "frame") 0 :=
    ⟨1, zero_le 1, mem_singleton.2 rfl⟩
  refine ⟨⟨?_, ?_⟩, rfl, hfirst, fun hsecond => ?_⟩
  · intro n target overhead limit hround
    cases n with
    | zero => cases hround
    | succ n =>
      cases hround
      simp only [Finset.mem_insert, Finset.mem_singleton]
      omega
  · intro peer hpeer n
    simp only [Finset.mem_insert, Finset.mem_singleton] at hpeer
    refine ⟨2 * n + peer + 1, by omega, 3, 1398, ?_, by decide⟩
    show Act.round ((2 * n + peer) % 2) 3 1398 = _
    have hmod : (2 * n + peer) % 2 = peer := by omega
    rw [hmod]
  · exact absurd (reached_unique [0, 1] honce hfirst hsecond) zero_ne_one

end

end Gossip

end Bouine.Cluster
