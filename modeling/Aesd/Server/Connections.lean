import Aesd.Verified.BlockHeap
import Aesd.Verified.Runs

/-!
# Who owns a connection

`client_handler` acquires five things for each connection it accepts: three blocks and
a list node, and a thread to hand the socket to.  `Acceptor.Owned` says what is to hold
after each iteration of its loop: whatever is open or allocated belongs to exactly one
started thread, and `thread_list` has one node for each of these threads.  The result
of `pthread_create` is not looked at; the invariant holds as long as it succeeds.
-/

namespace Aesd.Server

open Aesd.Verified.BlockHeap
open Aesd.Verified.Runs

/-! ## The accept loop -/

/-- `struct socket_processing` with what it points to: its block, the block of the
connection info with the socket in it, and the block of the packet. -/
structure SocketProcessing where
  block : Nat
  connectionInfo : Nat
  sockfd : Nat
  packet : Nat
  deriving DecidableEq

def SocketProcessing.blocks (sp : SocketProcessing) : List Nat :=
  [sp.packet, sp.connectionInfo, sp.block]

/-- A started thread and its argument. -/
structure Thread where
  id : Nat
  sp : SocketProcessing
  deriving DecidableEq

/-- `thread_node_t`.  `pthread_create` leaves `data_node` undefined when it fails. -/
structure ThreadNode where
  block : Nat
  dataNode : Option Nat
  sp : SocketProcessing
  deriving DecidableEq

/-- What `client_handler` and `main` share: the heap, how many sockets have been
accepted, which of them are open, the threads started and `thread_list`, newest first,
and the calls of `pthread_join`. -/
structure Acceptor where
  heap : Heap Unit
  accepted : Nat
  sockets : List Nat
  threads : List Thread
  threadList : List ThreadNode
  joined : List (Option Nat)

/-- What the system answers in one iteration: whether `accept` brings a socket, which
allocations succeed, and whether `pthread_create` does. -/
structure Round where
  accepts : Bool
  sp : Bool
  connectionInfo : Bool
  packet : Bool
  node : Bool
  creates : Bool

namespace Acceptor

def start : Acceptor :=
  { heap := .empty fun _ _ => (), accepted := 0, sockets := [], threads := []
    threadList := [], joined := [] }

/-- `malloc`. -/
def malloc (s : Acceptor) (ok : Bool) : Option Nat × Acceptor :=
  if ok then (some s.heap.next, { s with heap := s.heap.alloc 0 }) else (none, s)

def free (s : Acceptor) (p : Nat) : Acceptor := { s with heap := s.heap.free (some p) }

/-- `accept`: sockets are numbered in the order in which they come. -/
def accept (s : Acceptor) : Nat × Acceptor :=
  (s.accepted, { s with accepted := s.accepted + 1, sockets := s.accepted :: s.sockets })

def close (s : Acceptor) (fd : Nat) : Acceptor := { s with sockets := s.sockets.erase fd }

/-- `pthread_create`: what is left in `data_node`. -/
def pthreadCreate (s : Acceptor) (ok : Bool) (sp : SocketProcessing) : Option Nat × Acceptor :=
  if ok then (some s.threads.length, { s with threads := ⟨s.threads.length, sp⟩ :: s.threads })
  else (none, s)

/-- One iteration, lines 326 to 383. -/
def round (s : Acceptor) (a : Round) : Acceptor :=
  if a.accepts = false then s
  else
    let (fd, s) := s.accept
    match s.malloc a.sp with
    | (none, s) => s.close fd
    | (some sp, s) =>
        match s.malloc a.connectionInfo with
        | (none, s) => (s.free sp).close fd
        | (some info, s) =>
            match s.malloc a.packet with
            | (none, s) => ((s.free info).free sp).close fd
            | (some packet, s) =>
                match s.malloc a.node with
                | (none, s) => (((s.free packet).free info).free sp).close fd
                | (some node, s) =>
                    let sp : SocketProcessing :=
                      { block := sp, connectionInfo := info, sockfd := fd, packet := packet }
                    let (dataNode, s) := s.pthreadCreate a.creates sp
                    { s with threadList := ⟨node, dataNode, sp⟩ :: s.threadList }

def run (rounds : List Round) : Acceptor := rounds.foldl round start

/-- The loop over `thread_list` in `main`, lines 105 to 110. -/
def joinAll (s : Acceptor) : List ThreadNode → Acceptor
  | [] => s
  | node :: nodes =>
      let s := { s with joined := s.joined ++ [node.dataNode], threadList := nodes }
      (s.free node.block).joinAll nodes

def shutdown (s : Acceptor) : Acceptor := s.joinAll s.threadList

/-! ## Ownership -/

/-- Whatever is open or allocated belongs to exactly one started thread, and each of
these has its node. -/
structure Owned (s : Acceptor) : Prop where
  blocks : OwnsIds s.heap
    (s.threadList.map ThreadNode.block ++ s.threads.flatMap fun t => t.sp.blocks)
  sockets : s.sockets = s.threads.map fun t => t.sp.sockfd
  nodup : s.sockets.Nodup
  accepted : ∀ fd ∈ s.sockets, fd < s.accepted
  ids : s.threads.map Thread.id = (List.range s.threads.length).reverse
  nodes : s.threadList.map (fun node => (node.dataNode, node.sp)) =
    s.threads.map fun t => (some t.id, t.sp)
  unjoined : s.joined = []

theorem owned_start : start.Owned :=
  { blocks := OwnsIds.empty _
    sockets := rfl
    nodup := List.nodup_nil
    accepted := by simp [start]
    ids := rfl
    nodes := rfl
    unjoined := rfl }

/-- The shutdown loop joins each started thread once, and nothing else, and frees every
node. -/
structure JoinedAll (s : Acceptor) : Prop where
  joined : s.shutdown.joined = s.threads.map fun t => some t.id
  threadList : s.shutdown.threadList = []
  blocks : OwnsIds s.shutdown.heap (s.threads.flatMap fun t => t.sp.blocks)

end Acceptor

/-- `pthread_create` is not reached, or it starts the thread. -/
def Round.Starts (a : Round) : Prop :=
  a.accepts = true → a.sp = true → a.connectionInfo = true → a.packet = true → a.node = true →
    a.creates = true

namespace Acceptor

variable {s : Acceptor}

/-- A connection is turned away: its socket is closed and its blocks are free again. -/
theorem Owned.turnAway (h : s.Owned) {heap : Heap Unit}
    (hblocks : OwnsIds heap
      (s.threadList.map ThreadNode.block ++ s.threads.flatMap fun t => t.sp.blocks)) :
    ({ s with
      heap := heap
      accepted := s.accepted + 1
      sockets := (s.accepted :: s.sockets).erase s.accepted } : Acceptor).Owned := by
  rw [List.erase_cons_head]
  exact
    { blocks := hblocks
      sockets := h.sockets
      nodup := h.nodup
      accepted := fun fd hfd => Nat.lt_succ_of_lt (h.accepted fd hfd)
      ids := h.ids
      nodes := h.nodes
      unjoined := h.unjoined }

/-- A connection is handed to the thread that is started for it. -/
theorem Owned.handOver (h : s.Owned) {heap : Heap Unit} {node : Nat} {sp : SocketProcessing}
    (hsp : sp.sockfd = s.accepted)
    (hblocks : OwnsIds heap (node :: (sp.blocks ++
      (s.threadList.map ThreadNode.block ++ s.threads.flatMap fun t => t.sp.blocks)))) :
    ({ s with
      heap := heap
      accepted := s.accepted + 1
      sockets := s.accepted :: s.sockets
      threads := ⟨s.threads.length, sp⟩ :: s.threads
      threadList := ⟨node, some s.threads.length, sp⟩ :: s.threadList } : Acceptor).Owned :=
  { blocks := by
      refine hblocks.perm ?_
      simp only [List.map_cons, List.flatMap_cons, List.cons_append]
      exact (List.perm_append_comm_assoc ..).cons node
    sockets := by rw [List.map_cons, hsp, h.sockets]
    nodup := by
      apply List.nodup_cons.2
      refine ⟨?_, h.nodup⟩
      intro hfd
      exact Nat.lt_irrefl _ (h.accepted _ hfd)
    accepted := by
      intro fd hfd
      rcases List.mem_cons.1 hfd with rfl | hfd
      · exact Nat.lt_succ_self _
      · exact Nat.lt_succ_of_lt (h.accepted fd hfd)
    ids := by
      rw [List.map_cons, List.length_cons, List.range_succ, List.reverse_append, h.ids]
      rfl
    nodes := by rw [List.map_cons, List.map_cons, h.nodes]
    unjoined := h.unjoined }

/-- **One iteration** in which the thread is started. -/
theorem Owned.round (h : s.Owned) {a : Round} (hstarts : a.Starts) : (s.round a).Owned := by
  have hsp := h.blocks.alloc
  have hinfo := hsp.alloc
  have hpacket := hinfo.alloc
  have hnode := hpacket.alloc
  unfold Acceptor.round
  obtain ⟨accepts, sp, info, packet, node, creates⟩ := a
  match accepts, sp, info, packet, node with
  | false, _, _, _, _ => exact h
  | true, false, _, _, _ => exact h.turnAway h.blocks
  | true, true, false, _, _ => exact h.turnAway (hsp.free (List.Perm.refl _))
  | true, true, true, false, _ =>
      exact h.turnAway ((hinfo.free (List.Perm.refl _)).free (List.Perm.refl _))
  | true, true, true, true, false =>
      exact h.turnAway
        (((hpacket.free (List.Perm.refl _)).free (List.Perm.refl _)).free (List.Perm.refl _))
  | true, true, true, true, true =>
      obtain rfl : creates = true := hstarts rfl rfl rfl rfl rfl
      exact h.handOver rfl hnode

/-- An open socket belongs to one thread. -/
theorem Owned.handed (h : s.Owned) {fd : Nat} (hopen : fd ∈ s.sockets) :
    ∃! t, t ∈ s.threads ∧ t.sp.sockfd = fd := by
  have hnodup := h.nodup
  rw [h.sockets] at hopen hnodup
  obtain ⟨t, ht, hfd⟩ := List.mem_map.1 hopen
  refine ⟨t, ⟨ht, hfd⟩, ?_⟩
  intro u ⟨hu, hufd⟩
  exact List.inj_on_of_nodup_map hnodup hu ht (hufd.trans hfd.symm)

/-! ## Threads that were not started -/

/-- Every node has a thread to join. -/
def Joinable (s : Acceptor) : Prop := ∀ node ∈ s.threadList, node.dataNode.isSome = true

theorem Owned.joinable (h : s.Owned) : s.Joinable := by
  intro node hnode
  have hmem : (node.dataNode, node.sp) ∈ s.threads.map fun t => (some t.id, t.sp) := by
    rw [← h.nodes]
    exact List.mem_map_of_mem hnode
  obtain ⟨t, -, ht⟩ := List.mem_map.1 hmem
  rw [← (Prod.mk.inj ht).1]
  rfl

/-- An iteration leaves the list alone or puts a node in front, and the node has a
thread unless `pthread_create` failed. -/
theorem threadList_round (s : Acceptor) (a : Round) :
    (a.Starts ∧ (s.round a).threadList = s.threadList) ∨
      ∃ node, (s.round a).threadList = node :: s.threadList ∧
        (node.dataNode.isSome = true ↔ a.Starts) := by
  obtain ⟨accepts, sp, info, packet, node, creates⟩ := a
  match accepts, sp, info, packet, node with
  | false, _, _, _, _ => exact .inl ⟨nofun, rfl⟩
  | true, false, _, _, _ => exact .inl ⟨nofun, rfl⟩
  | true, true, false, _, _ => exact .inl ⟨nofun, rfl⟩
  | true, true, true, false, _ => exact .inl ⟨nofun, rfl⟩
  | true, true, true, true, false => exact .inl ⟨nofun, rfl⟩
  | true, true, true, true, true =>
      right
      cases creates with
      | false => exact ⟨_, rfl, by simp [Round.Starts]⟩
      | true => exact ⟨_, rfl, by simp [Round.Starts]⟩

theorem Joinable.of_round {a : Round} (h : (s.round a).Joinable) : s.Joinable := by
  unfold Joinable at *
  rcases threadList_round s a with ⟨-, hlist⟩ | ⟨node, hlist, -⟩
  · rwa [hlist] at h
  · intro older holder
    apply h older
    rw [hlist]
    exact List.mem_cons_of_mem node holder

theorem Owned.joinable_round_iff (h : s.Owned) (a : Round) :
    (s.round a).Joinable ↔ a.Starts := by
  have hold := h.joinable
  unfold Joinable at *
  rcases threadList_round s a with ⟨hstarts, hlist⟩ | ⟨node, hlist, hiff⟩
  · rw [hlist]
    exact iff_of_true hold hstarts
  · rw [hlist, List.forall_mem_cons, hiff]
    exact and_iff_left hold

/-! ## The shutdown loop -/

theorem joinAll_spec {nodes : List ThreadNode} {held : List Nat} (hlist : s.threadList = nodes)
    (hblocks : OwnsIds s.heap (nodes.map ThreadNode.block ++ held)) :
    (s.joinAll nodes).joined = s.joined ++ nodes.map ThreadNode.dataNode ∧
      (s.joinAll nodes).threadList = [] ∧ OwnsIds (s.joinAll nodes).heap held := by
  induction nodes generalizing s with
  | nil => exact ⟨(List.append_nil _).symm, hlist, hblocks⟩
  | cons node nodes ih =>
      obtain ⟨hjoined, hempty, hheap⟩ := ih
        (s := ({ s with joined := s.joined ++ [node.dataNode], threadList := nodes } :
          Acceptor).free node.block) rfl (hblocks.free (List.Perm.refl _))
      refine ⟨hjoined.trans ?_, hempty, hheap⟩
      rw [List.map_cons]
      exact List.append_assoc ..

/-- **The shutdown loop** joins the started threads, newest first. -/
theorem Owned.joinedAll (h : s.Owned) : s.JoinedAll := by
  obtain ⟨hjoined, hempty, hheap⟩ := joinAll_spec rfl h.blocks
  refine ⟨?_, hempty, hheap⟩
  have hnodes := congrArg (List.map Prod.fst) h.nodes
  rw [List.map_map, List.map_map] at hnodes
  rw [shutdown, hjoined, h.unjoined]
  exact hnodes

theorem owned_run {rounds : List Round} (hstarts : ∀ a ∈ rounds, a.Starts) :
    (run rounds).Owned :=
  invariant (fun _ _ h ha => h.round ha) owned_start (along_of_forall hstarts)

/-- If every node has a thread in the end, every thread was started. -/
theorem joinable_run_iff (rounds : List Round) :
    (run rounds).Joinable ↔ ∀ a ∈ rounds, a.Starts := by
  have hiff : (run rounds).Joinable ↔ Along Acceptor.round (fun _ a => a.Starts) start rounds :=
    along_iff_of_lasting (fun _ _ h ha => h.round ha) (fun _ a h _ => h.joinable_round_iff a)
      (fun _ _ h => h.of_round) owned_start owned_start.joinable
  exact hiff.trans along_forall

end Acceptor

/-- **One owner each.**  After every iteration each open socket and each block belongs
to exactly one started thread, which has one node; and the shutdown loop joins exactly
these threads: this holds exactly when `pthread_create` fails in no iteration. -/
theorem connections_owned_iff (rounds : List Round) :
    ((∀ n, (Acceptor.run (rounds.take n)).Owned) ∧ (Acceptor.run rounds).JoinedAll) ↔
      ∀ a ∈ rounds, a.Starts := by
  constructor
  · intro ⟨howned, _⟩
    have hlast := howned rounds.length
    rw [List.take_length] at hlast
    exact (Acceptor.joinable_run_iff rounds).1 hlast.joinable
  · intro hstarts
    constructor
    · intro n
      apply Acceptor.owned_run
      intro a ha
      exact hstarts a (List.mem_of_mem_take ha)
    · exact (Acceptor.owned_run hstarts).joinedAll

/-- One connection whose thread could not be started: its node is in the list, and its
socket stays open. -/
theorem unstarted_thread_in_list :
    ¬∀ rounds, (∀ n, (Acceptor.run (rounds.take n)).Owned) ∧ (Acceptor.run rounds).JoinedAll := by
  intro hall
  have howned := (hall [⟨true, true, true, true, true, false⟩]).1 1
  exact absurd howned.nodes (by decide)

end Aesd.Server
