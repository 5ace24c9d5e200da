import Aesd.Server.Connections
import Aesd.Server.ThreadExit

/-!
# What a run of the server leaves behind

`main` accepts connections, hands each to a thread, and at the end joins the threads and
frees its list.  The threads run `data_processing` meanwhile; each of their steps is one
event of `ThreadExit`, one growth of the packet buffer, or the `open` at the start, and the
steps of all threads and of `main` interleave in any order.

`ServerRun.Accounts` is the account of the whole process: every live block and every open
descriptor, and whom it belongs to.  When `main` has returned, what is left is what belonged
to threads that were not started or did not come to their clean-up.
-/

namespace Aesd.Server

open Aesd.Driver
open Aesd.Verified.BlockHeap
open Aesd.Verified.Runs

/-! ## The process -/

/-- A `data_processing` that ends.  A run has finitely many steps, and as far as it goes a
thread that never ends does in it what one does that ends later. -/
structure Life where
  env : Env
  fuel : Nat
  kernel : Kernel
  endOfPacket : Bool
  handler : Handler
  ends : dataProcessing env fuel kernel endOfPacket = some handler

/-- A thread: whether it has called `open`, what it has done after that and what it has
still to do, and `packet->data`. -/
structure Worker where
  opened : Bool
  executed : List Event
  todo : List Event
  data : Option Nat
  deriving DecidableEq

def Life.worker (life : Life) : Worker :=
  { opened := false, executed := [], todo := life.handler.events, data := none }

/-- Where `main` is: in `client_handler`, at the loop over `thread_list`, at its end. -/
inductive MainThread
  | serving
  | joining
  | returned
  deriving DecidableEq

/-- The process: what `main` and the accept loop work on, the threads by their number, the
threads with an open device descriptor, and the block of the connection info of `main`.
`unstarted` remembers the connections that `pthread_create` found no thread for. -/
structure ServerRun where
  acceptor : Acceptor
  workers : Nat → Worker
  devices : List Nat
  main : MainThread
  connInfo : Nat
  unstarted : List SocketProcessing

/-- A step of `main` or of thread `t`. -/
inductive ServerStep
  | serve (a : Round)
  | leave
  | join
  | opens (t : Nat)
  | grow (t : Nat)
  | event (t : Nat)

namespace Acceptor

/-- Follow a pointer to the block `p`. -/
def touch (s : Acceptor) (p : Nat) : Acceptor :=
  { s with heap := if (s.heap.blocks p).isSome then s.heap else s.heap.fault }

/-- One event of a thread, as far as memory and sockets go. -/
def perform (s : Acceptor) (sp : SocketProcessing) (data : Option Nat) : Event → Acceptor
  | .lock | .unlock | .seek _ | .write _ => (s.touch sp.block).touch sp.packet
  | .closeDevice => s
  | .closeSocket => ((s.touch sp.block).touch sp.connectionInfo).close sp.sockfd
  | .freeData =>
      let s := (s.touch sp.block).touch sp.packet
      { s with heap := s.heap.free data }
  | .freePacket => (s.touch sp.block).free sp.packet
  | .freeConnectionInfo => (s.touch sp.block).free sp.connectionInfo
  | .freeSocketProcessing => s.free sp.block

end Acceptor

instance (a : Round) : Decidable a.Starts := by
  unfold Round.Starts
  infer_instance

namespace ServerRun

/-- `main` has allocated its connection info. -/
def start (lives : Nat → Life) : ServerRun :=
  { acceptor := (Acceptor.start.malloc true).2
    workers := fun t => (lives t).worker
    devices := []
    main := .serving
    connInfo := Acceptor.start.heap.next
    unstarted := [] }

def setWorker (s : ServerRun) (t : Nat) (w : Worker) : ServerRun :=
  { s with workers := Function.update s.workers t w }

/-- The started thread with a number. -/
def thread (s : ServerRun) (t : Nat) : Option Thread := s.acceptor.threads.find? (·.id = t)

/-- `pthread_join` returns for a thread that has ended. -/
def Ended (s : ServerRun) (t : Nat) : Prop :=
  (s.workers t).opened = true ∧ (s.workers t).todo = []

instance (s : ServerRun) (t : Nat) : Decidable (s.Ended t) :=
  inferInstanceAs (Decidable (_ ∧ _))

/-- The line that `main` executes next frees the node it has joined. -/
def dropNode (s : ServerRun) (node : ThreadNode) (nodes : List ThreadNode) : ServerRun :=
  { s with acceptor := ({ s.acceptor with
      joined := s.acceptor.joined ++ [node.dataNode], threadList := nodes }).free node.block }

/-- One step.  A thread grows its packet buffer only in its receive loop, before it has
released anything. -/
def step (lives : Nat → Life) (s : ServerRun) : ServerStep → ServerRun
  | .serve a =>
      if s.main = .serving then
        let acceptor := s.acceptor.round a
        { s with
          acceptor := acceptor
          unstarted :=
            if a.Starts then s.unstarted
            else (acceptor.threadList.head?.map ThreadNode.sp).toList ++ s.unstarted }
      else s
  | .leave => if s.main = .serving then { s with main := .joining } else s
  | .join =>
      if s.main = .joining then
        match s.acceptor.threadList with
        | [] => { s with acceptor := s.acceptor.free s.connInfo, main := .returned }
        | node :: nodes =>
            match node.dataNode with
            | none => s.dropNode node nodes
            | some t => if s.Ended t then s.dropNode node nodes else s
      else s
  | .opens t =>
      match s.thread t with
      | none => s
      | some _ =>
          if (s.workers t).opened then s
          else
            { s.setWorker t { s.workers t with opened := true } with
              devices := if (lives t).env.opens then t :: s.devices else s.devices }
  | .grow t =>
      let w := s.workers t
      match s.thread t with
      | none => s
      | some _ =>
          if w.opened ∧ (lives t).env.opens ∧ (lives t).env.fstats ∧ w.todo ≠ [] ∧
              ∀ e ∈ w.executed, e.releases = false then
            let (p, acceptor) := s.acceptor.malloc true
            { s.setWorker t { w with data := p } with
              acceptor := { acceptor with heap := acceptor.heap.free w.data } }
          else s
  | .event t =>
      let w := s.workers t
      match s.thread t, w.todo with
      | some thread, e :: todo =>
          if w.opened then
            { s.setWorker t { w with executed := w.executed ++ [e], todo := todo } with
              acceptor := s.acceptor.perform thread.sp w.data e
              devices := if e = .closeDevice then s.devices.erase t else s.devices }
          else s
      | _, _ => s

def run (lives : Nat → Life) (steps : List ServerStep) : ServerRun :=
  steps.foldl (step lives) (start lives)

end ServerRun

/-! ## Who owns what -/

/-- What a thread releases in its clean-up. -/
def cleanUpEvents : List Event :=
  [.closeDevice, .closeSocket, .freeData, .freePacket, .freeConnectionInfo, .freeSocketProcessing]

namespace Worker

/-- The blocks of a thread that it has not freed. -/
def blocks (w : Worker) (sp : SocketProcessing) : List Nat :=
  (if .freeData ∈ w.executed then [] else w.data.toList) ++
    (if .freePacket ∈ w.executed then [] else [sp.packet]) ++
    (if .freeConnectionInfo ∈ w.executed then [] else [sp.connectionInfo]) ++
    (if .freeSocketProcessing ∈ w.executed then [] else [sp.block])

/-- Its client socket, unless it has closed it. -/
def sockets (w : Worker) (sp : SocketProcessing) : List Nat :=
  if .closeSocket ∈ w.executed then [] else [sp.sockfd]

/-- Its device descriptor, from its `open` to its `close`. -/
def devices (w : Worker) (life : Life) (t : Nat) : List Nat :=
  if w.opened ∧ life.env.opens ∧ .closeDevice ∉ w.executed then [t] else []

end Worker

namespace ServerRun

/-- The account of the process. -/
structure Accounts (lives : Nat → Life) (s : ServerRun) : Prop where
  blocks : OwnsIds s.acceptor.heap
    ((if s.main = .returned then [] else [s.connInfo]) ++
      s.acceptor.threadList.map ThreadNode.block ++
      s.unstarted.flatMap SocketProcessing.blocks ++
      s.acceptor.threads.flatMap fun t => (s.workers t.id).blocks t.sp)
  sockets : s.acceptor.sockets.Perm (s.unstarted.map SocketProcessing.sockfd ++
    s.acceptor.threads.flatMap fun t => (s.workers t.id).sockets t.sp)
  devices : s.devices.Perm
    (s.acceptor.threads.flatMap fun t => (s.workers t.id).devices (lives t.id) t.id)
  ids : s.acceptor.threads.map Thread.id = (List.range s.acceptor.threads.length).reverse
  unborn : ∀ t, s.acceptor.threads.length ≤ t → s.workers t = (lives t).worker
  script : ∀ t, (s.workers t).executed ++ (s.workers t).todo = (lives t).handler.events
  unopened : ∀ t, (s.workers t).opened = false → (s.workers t).executed = []
  joinable : ∀ t ∈ s.acceptor.threads,
    some t.id ∈ s.acceptor.threadList.map ThreadNode.dataNode ∨ s.Ended t.id
  returned : s.main = .returned → s.acceptor.threadList = []

end ServerRun

/-! ## One iteration of the accept loop -/

/-- What an iteration leaves when the live blocks are `own`: the connection is turned away
with its blocks, or it has a node, and a thread unless `pthread_create` fails. -/
theorem Acceptor.round_cases {s : Acceptor} {own : List Nat} (h : OwnsIds s.heap own) (a : Round) :
    (a.Starts ∧ ∃ heap n, s.round a = { s with heap := heap, accepted := n } ∧
      OwnsIds heap own) ∨
    ∃ heap node sp, OwnsIds heap (node :: (sp.blocks ++ own)) ∧
      ((a.Starts ∧ s.round a = { s with
          heap := heap
          accepted := s.accepted + 1
          sockets := sp.sockfd :: s.sockets
          threads := ⟨s.threads.length, sp⟩ :: s.threads
          threadList := ⟨node, some s.threads.length, sp⟩ :: s.threadList }) ∨
        (¬a.Starts ∧ s.round a = { s with
          heap := heap
          accepted := s.accepted + 1
          sockets := sp.sockfd :: s.sockets
          threadList := ⟨node, none, sp⟩ :: s.threadList })) := by
  have hsp := h.alloc
  have hinfo := hsp.alloc
  have hpacket := hinfo.alloc
  have hnode := hpacket.alloc
  have haway : ∀ heap : Heap Unit, ({ s with
      heap := heap
      accepted := s.accepted + 1
      sockets := (s.accepted :: s.sockets).erase s.accepted } : Acceptor) =
      { s with heap := heap, accepted := s.accepted + 1 } := by
    intro heap
    rw [List.erase_cons_head]
  unfold Acceptor.round
  obtain ⟨accepts, sp, info, packet, node, creates⟩ := a
  match accepts, sp, info, packet, node with
  | false, _, _, _, _ => exact .inl ⟨nofun, _, _, rfl, h⟩
  | true, false, _, _, _ => exact .inl ⟨nofun, _, _, haway _, h⟩
  | true, true, false, _, _ =>
      exact .inl ⟨nofun, _, _, haway _, hsp.free (List.Perm.refl _)⟩
  | true, true, true, false, _ =>
      exact .inl ⟨nofun, _, _, haway _,
        (hinfo.free (List.Perm.refl _)).free (List.Perm.refl _)⟩
  | true, true, true, true, false =>
      exact .inl ⟨nofun, _, _, haway _,
        ((hpacket.free (List.Perm.refl _)).free (List.Perm.refl _)).free (List.Perm.refl _)⟩
  | true, true, true, true, true =>
      refine .inr ⟨_, _, ⟨s.heap.next, s.heap.next + 1, s.accepted, s.heap.next + 2⟩, hnode, ?_⟩
      cases creates with
      | true => exact .inl ⟨fun _ _ _ _ _ => rfl, rfl⟩
      | false => exact .inr ⟨by simp [Round.Starts], rfl⟩

/-! ## One event of a thread -/

/-- How far a thread is when `e` comes next: in its loop, or in its clean-up. -/
inductive Position : List Event → Event → Prop
  | working {executed : List Event} {e : Event} (hexecuted : ∀ x ∈ executed, x.releases = false)
      (he : e.releases = false) : Position executed e
  | cleaning {working : List Event} (hworking : ∀ x ∈ working, x.releases = false) (i : Nat)
      (hi : i < cleanUpEvents.length) :
      Position (working ++ cleanUpEvents.take i) cleanUpEvents[i]

theorem Life.position (life : Life) {executed todo : List Event} {e : Event}
    (h : executed ++ e :: todo = life.handler.events) : Position executed e := by
  cases dataProcessing_exit life.ends with
  | openFails hopens hevents =>
      rw [hevents] at h
      simp at h
  | fstatFails hfstats hevents =>
      rw [hevents, List.append_eq_singleton_iff] at h
      rcases h with ⟨rfl, hrest⟩ | ⟨-, hrest⟩
      · obtain rfl : e = .closeDevice := by simpa using congrArg List.head? hrest
        have hnone : ∀ x ∈ ([] : List Event), x.releases = false := by simp
        exact .cleaning hnone 0 (by decide)
      · cases hrest
  | @reallocFails events n hworking hfails hevents =>
      have hkeeps : ∀ x ∈ executed ++ e :: todo, x.releases = false := by
        intro x hx
        rw [h, hevents] at hx
        rcases List.mem_append.1 hx with hx | hx
        · exact hworking.keeps x hx
        · rw [List.mem_singleton.1 hx]
          rfl
      exact .working (fun x hx => hkeeps x (List.mem_append_left _ hx)) (hkeeps e (by simp))
  | @cleansUp events hworking hreaches hevents =>
      rw [hevents] at h
      rcases List.append_eq_append_iff.1 h with ⟨more, hmore, hrest⟩ | ⟨done, rfl, hrest⟩
      · cases more with
        | nil =>
            obtain rfl : e = .closeDevice := by simpa using congrArg List.head? hrest
            rw [List.append_nil] at hmore
            rw [← List.append_nil executed, ← hmore]
            exact .cleaning hworking.keeps 0 (by decide)
        | cons x more =>
            obtain rfl : e = x := by simpa using congrArg List.head? hrest
            rw [hmore] at hworking
            exact .working (fun x hx => hworking.keeps x (List.mem_append_left _ hx))
              (hworking.keeps e (by simp))
      · have hi : done.length < cleanUpEvents.length := by
          have hlen := congrArg List.length hrest
          simp only [List.length_append, List.length_cons, cleanUpEvents, List.length_nil] at hlen ⊢
          omega
        have htake : cleanUpEvents.take done.length = done := by
          rw [cleanUpEvents, hrest, List.take_left' rfl]
        have hnext : cleanUpEvents[done.length] = e := by
          have heq : cleanUpEvents = done ++ e :: todo := hrest
          simp only [heq, List.getElem_append_right (Nat.le_refl _), Nat.sub_self,
            List.getElem_cons_zero]
        rw [← htake, ← hnext]
        exact .cleaning hworking.keeps _ hi

/-- A thread that could not open the device has nothing to do. -/
theorem Life.opens_of_event (life : Life) {executed todo : List Event} {e : Event}
    (h : executed ++ e :: todo = life.handler.events) : life.env.opens = true := by
  by_contra hopens
  have hends := life.ends
  rw [Bool.not_eq_true] at hopens
  simp only [dataProcessing, hopens, if_true] at hends
  rw [← Option.some.inj hends] at h
  simp at h

theorem Position.not_mem_closeDevice {executed : List Event} (h : Position executed .closeDevice) :
    Event.closeDevice ∉ executed := by
  generalize he : Event.closeDevice = e at h
  cases h with
  | working hexecuted hkeeps =>
      subst he
      cases hkeeps
  | cleaning hworking i hi =>
      have hzero : i = 0 := by
        match i, hi with
        | 0, _ => rfl
        | 1, _ | 2, _ | 3, _ | 4, _ | 5, _ => cases he
      subst hzero
      intro hmem
      rw [← he, List.take_zero, List.append_nil] at hmem
      have hreleases := hworking _ hmem
      cases hreleases

/-- An event that has been executed in the clean-up, or is still ahead. -/
private theorem mem_cleaning {working : List Event} (hworking : ∀ x ∈ working, x.releases = false)
    {e : Event} (he : e.releases = true) (i : Nat) :
    e ∈ working ++ cleanUpEvents.take i ↔ e ∈ cleanUpEvents.take i := by
  rw [List.mem_append, or_iff_right]
  intro hmem
  rw [hworking e hmem] at he
  cases he

namespace Acceptor

variable {s : Acceptor} {sp : SocketProcessing} {own : List Nat} {p : Nat}

theorem touch_of_mem (h : OwnsIds s.heap own) (hp : p ∈ own) : s.touch p = s := by
  have hlive : (s.heap.blocks p).isSome = true :=
    (h.isSome_blocks_iff p).2 (by simpa using hp)
  rw [touch, if_pos hlive]

end Acceptor

/-- What an event does to the account of its thread. -/
structure Performed (s : Acceptor) (w : Worker) (sp : SocketProcessing) (e : Event)
    (todo : List Event) (blocks sockets : List Nat) (s' : Acceptor) : Prop where
  blocks : OwnsIds s'.heap (({ w with executed := w.executed ++ [e], todo := todo } : Worker).blocks
    sp ++ blocks)
  sockets : s'.sockets.Perm (({ w with executed := w.executed ++ [e], todo := todo } :
    Worker).sockets sp ++ sockets)
  rest : s' = { s with heap := s'.heap, sockets := s'.sockets }

/-- What a thread holds depends on the releases among its events. -/
private theorem Worker.holds_congr (w : Worker) (executed : List Event)
    (h : ∀ x : Event, x.releases = true → (x ∈ w.executed ↔ x ∈ executed))
    (sp : SocketProcessing) :
    w.blocks sp = { w with executed := executed }.blocks sp ∧
      w.sockets sp = { w with executed := executed }.sockets sp := by
  simp only [Worker.blocks, Worker.sockets, h .freeData rfl, h .freePacket rfl,
    h .freeConnectionInfo rfl, h .freeSocketProcessing rfl, h .closeSocket rfl, and_self]

/-- An event that releases nothing. -/
private theorem performed_working {s : Acceptor} {w : Worker} {sp : SocketProcessing} {e : Event}
    {blocks sockets : List Nat} (todo : List Event)
    (hexecuted : ∀ x ∈ w.executed, x.releases = false) (he : e.releases = false)
    (hblocks : OwnsIds s.heap (w.blocks sp ++ blocks))
    (hsockets : s.sockets.Perm (w.sockets sp ++ sockets)) :
    Performed s w sp e todo blocks sockets (s.perform sp w.data e) := by
  have hnone : ∀ x : Event, x.releases = true → x ∉ w.executed := by
    intro x hx hmem
    rw [hexecuted x hmem] at hx
    cases hx
  have hsame : ∀ x : Event, x.releases = true → (x ∈ w.executed ↔ x ∈ w.executed ++ [e]) := by
    intro x hx
    rw [List.mem_append, List.mem_singleton, or_iff_left]
    rintro rfl
    rw [he] at hx
    cases hx
  have hheld := w.holds_congr _ hsame sp
  have hsp : sp.block ∈ w.blocks sp ++ blocks := by
    simp [Worker.blocks, hnone _ (show Event.freeSocketProcessing.releases = true from rfl)]
  have hpacket : sp.packet ∈ w.blocks sp ++ blocks := by
    simp [Worker.blocks, hnone _ (show Event.freePacket.releases = true from rfl)]
  have hperform : s.perform sp w.data e = s := by
    have htouch : (s.touch sp.block).touch sp.packet = s := by
      rw [Acceptor.touch_of_mem hblocks hsp, Acceptor.touch_of_mem hblocks hpacket]
    cases e with
    | lock | unlock | seek | write => exact htouch
    | closeDevice | closeSocket | freeData | freePacket | freeConnectionInfo
    | freeSocketProcessing => cases he
  rw [hperform]
  exact
    { blocks := hheld.1 ▸ hblocks
      sockets := hheld.2 ▸ hsockets
      rest := rfl }

/-- **One event** of a thread changes the account by what the thread releases. -/
theorem performed {s : Acceptor} {w : Worker} {sp : SocketProcessing} {e : Event}
    {blocks sockets : List Nat} (todo : List Event) (hpos : Position w.executed e)
    (hblocks : OwnsIds s.heap (w.blocks sp ++ blocks))
    (hsockets : s.sockets.Perm (w.sockets sp ++ sockets)) :
    Performed s w sp e todo blocks sockets (s.perform sp w.data e) := by
  generalize hexecuted : w.executed = executed at hpos
  cases hpos with
  | working hbefore he => exact performed_working todo (hexecuted ▸ hbefore) he hblocks hsockets
  | @cleaning working hworking i hi =>
      have hold := w.holds_congr (cleanUpEvents.take i)
        (by rw [hexecuted]; exact fun x hx => mem_cleaning hworking hx i) sp
      have hnew := Worker.holds_congr
        { w with executed := w.executed ++ [cleanUpEvents[i]], todo := todo }
        (cleanUpEvents.take (i + 1))
        (by
          intro x hx
          show x ∈ w.executed ++ [cleanUpEvents[i]] ↔ _
          rw [hexecuted, List.append_assoc, List.take_concat_get' cleanUpEvents i hi]
          exact mem_cleaning hworking hx (i + 1)) sp
      rw [hold.1] at hblocks
      rw [hold.2] at hsockets
      suffices h : OwnsIds (s.perform sp w.data cleanUpEvents[i]).heap
            (({ w with executed := cleanUpEvents.take (i + 1), todo := todo } : Worker).blocks sp ++
              blocks) ∧
          (s.perform sp w.data cleanUpEvents[i]).sockets.Perm
            (({ w with executed := cleanUpEvents.take (i + 1), todo := todo } : Worker).sockets sp ++
              sockets) ∧
          s.perform sp w.data cleanUpEvents[i] = { s with
            heap := (s.perform sp w.data cleanUpEvents[i]).heap
            sockets := (s.perform sp w.data cleanUpEvents[i]).sockets } from
        { blocks := hnew.1 ▸ h.1
          sockets := hnew.2 ▸ h.2.1
          rest := h.2.2 }
      clear hold hnew
      match i, hi with
      | 0, _ => exact ⟨hblocks, hsockets, rfl⟩
      | 1, _ =>
          change OwnsIds s.heap
            (w.data.toList ++ [sp.packet] ++ [sp.connectionInfo] ++ [sp.block] ++ blocks) at hblocks
          change s.sockets.Perm (sp.sockfd :: sockets) at hsockets
          have hperform : s.perform sp w.data .closeSocket = s.close sp.sockfd := by
            rw [Acceptor.perform, Acceptor.touch_of_mem hblocks (by simp),
              Acceptor.touch_of_mem hblocks (by simp)]
          have hclosed := hsockets.erase sp.sockfd
          rw [List.erase_cons_head] at hclosed
          rw [show cleanUpEvents[1] = .closeSocket from rfl, hperform]
          exact ⟨hblocks, hclosed, rfl⟩
      | 2, _ =>
          change OwnsIds s.heap
            (w.data.toList ++ [sp.packet] ++ [sp.connectionInfo] ++ [sp.block] ++ blocks) at hblocks
          have hperform :
              s.perform sp w.data .freeData = { s with heap := s.heap.free w.data } := by
            rw [Acceptor.perform, Acceptor.touch_of_mem hblocks (by simp),
              Acceptor.touch_of_mem hblocks (by simp)]
          rw [show cleanUpEvents[2] = .freeData from rfl, hperform]
          refine ⟨?_, hsockets, rfl⟩
          cases hdata : w.data with
          | none =>
              rw [hdata] at hblocks
              exact hblocks
          | some p =>
              rw [hdata] at hblocks
              exact hblocks.free (List.Perm.refl _)
      | 3, _ =>
          change OwnsIds s.heap ([sp.packet] ++ [sp.connectionInfo] ++ [sp.block] ++ blocks) at hblocks
          have hperform : s.perform sp w.data .freePacket = s.free sp.packet := by
            rw [Acceptor.perform, Acceptor.touch_of_mem hblocks (by simp)]
          rw [show cleanUpEvents[3] = .freePacket from rfl, hperform]
          exact ⟨hblocks.free (List.Perm.refl _), hsockets, rfl⟩
      | 4, _ =>
          change OwnsIds s.heap ([sp.connectionInfo] ++ [sp.block] ++ blocks) at hblocks
          have hperform : s.perform sp w.data .freeConnectionInfo = s.free sp.connectionInfo := by
            rw [Acceptor.perform, Acceptor.touch_of_mem hblocks (by simp)]
          rw [show cleanUpEvents[4] = .freeConnectionInfo from rfl, hperform]
          exact ⟨hblocks.free (List.Perm.refl _), hsockets, rfl⟩
      | 5, _ =>
          change OwnsIds s.heap ([sp.block] ++ blocks) at hblocks
          exact ⟨hblocks.free (List.Perm.refl _), hsockets, rfl⟩

/-! ## The account of a run -/

namespace ServerRun

variable {lives : Nat → Life} {s : ServerRun}

theorem accounts_start (lives : Nat → Life) : (start lives).Accounts lives :=
  { blocks := (OwnsIds.empty _).alloc
    sockets := List.Perm.refl _
    devices := List.Perm.refl _
    ids := rfl
    unborn := fun _ _ => rfl
    script := fun _ => rfl
    unopened := fun _ _ => rfl
    joinable := by simp [start, Acceptor.start, Acceptor.malloc]
    returned := nofun }

/-- The blocks that do not belong to a thread. -/
def sharedBlocks (s : ServerRun) : List Nat :=
  (if s.main = .returned then [] else [s.connInfo]) ++
    s.acceptor.threadList.map ThreadNode.block ++
    s.unstarted.flatMap SocketProcessing.blocks

/-- What thread `th` and the others hold, when the worker of `th` is `w`. -/
private theorem flatMap_update {threads others : List Thread} {th : Thread}
    (hperm : threads.Perm (th :: others)) (hothers : ∀ u ∈ others, u.id ≠ th.id)
    (workers : Nat → Worker) (w : Worker) (f : Worker → Thread → List Nat) :
    (threads.flatMap fun u => f (Function.update workers th.id w u.id) u).Perm
      (f w th ++ others.flatMap fun u => f (workers u.id) u) := by
  refine (hperm.flatMap_right _).trans ?_
  rw [List.flatMap_cons, Function.update_self]
  have hsame : (others.flatMap fun u => f (Function.update workers th.id w u.id) u) =
      others.flatMap fun u => f (workers u.id) u := by
    refine List.flatMap_congr fun u hu => ?_
    rw [Function.update_of_ne (hothers u hu)]
  rw [hsame]

/-- A thread among the others. -/
theorem Accounts.others (h : s.Accounts lives) {t : Nat} {th : Thread}
    (hth : s.thread t = some th) :
    th.id = t ∧ ∃ others, s.acceptor.threads.Perm (th :: others) ∧ ∀ u ∈ others, u.id ≠ th.id := by
  have hid : th.id = t := by simpa using List.find?_some hth
  have hperm := List.perm_cons_erase (List.mem_of_find?_eq_some hth)
  have hnodup : (s.acceptor.threads.map Thread.id).Nodup := by
    rw [h.ids, List.nodup_reverse]
    exact List.nodup_range
  have hcons := ((hperm.map Thread.id).nodup_iff).1 hnodup
  refine ⟨hid, _, hperm, fun u hu heq => ?_⟩
  rw [List.map_cons, List.nodup_cons] at hcons
  exact hcons.1 (heq ▸ List.mem_map_of_mem hu)

/-- A started thread has a number below the count. -/
theorem Accounts.lt_length (h : s.Accounts lives) {th : Thread} (hth : th ∈ s.acceptor.threads) :
    th.id < s.acceptor.threads.length := by
  have hmem := List.mem_map_of_mem (f := Thread.id) hth
  rw [h.ids, List.mem_reverse, List.mem_range] at hmem
  exact hmem

/-- **A thread moves**: its own account changes, and the others' do not. -/
theorem Accounts.moveWorker (h : s.Accounts lives) {th : Thread} {others : List Thread}
    (hperm : s.acceptor.threads.Perm (th :: others)) (hothers : ∀ u ∈ others, u.id ≠ th.id)
    {w : Worker} {heap : Heap Unit} {sockets devices : List Nat}
    (hblocks : OwnsIds heap (w.blocks th.sp ++
      (s.sharedBlocks ++ others.flatMap fun u => (s.workers u.id).blocks u.sp)))
    (hsockets : sockets.Perm (w.sockets th.sp ++ (s.unstarted.map SocketProcessing.sockfd ++
      others.flatMap fun u => (s.workers u.id).sockets u.sp)))
    (hdevices : devices.Perm (w.devices (lives th.id) th.id ++
      others.flatMap fun u => (s.workers u.id).devices (lives u.id) u.id))
    (hscript : w.executed ++ w.todo = (lives th.id).handler.events)
    (hunopened : w.opened = false → w.executed = [])
    (hended : s.Ended th.id → w.opened = true ∧ w.todo = []) :
    ({ s.setWorker th.id w with
      acceptor := { s.acceptor with heap := heap, sockets := sockets }
      devices := devices } : ServerRun).Accounts lives := by
  have hth : th ∈ s.acceptor.threads := hperm.symm.subset (List.mem_cons_self ..)
  constructor
  · refine hblocks.perm ?_
    refine (List.perm_append_comm_assoc ..).trans ?_
    refine List.Perm.append_left s.sharedBlocks ?_
    exact (flatMap_update hperm hothers s.workers w fun w u => w.blocks u.sp).symm
  · refine hsockets.trans ?_
    refine (List.perm_append_comm_assoc ..).trans ?_
    refine List.Perm.append_left _ ?_
    exact (flatMap_update hperm hothers s.workers w fun w u => w.sockets u.sp).symm
  · refine hdevices.trans ?_
    exact (flatMap_update hperm hothers s.workers w fun w u => w.devices (lives u.id) u.id).symm
  · exact h.ids
  · intro t ht
    show Function.update s.workers th.id w t = _
    rw [Function.update_of_ne]
    · exact h.unborn t ht
    · rintro rfl
      exact Nat.lt_irrefl _ (Nat.lt_of_lt_of_le (h.lt_length hth) ht)
  · intro t
    show (Function.update s.workers th.id w t).executed ++ (Function.update s.workers th.id w t).todo
      = _
    by_cases ht : t = th.id
    · rw [ht, Function.update_self]
      exact hscript
    · rw [Function.update_of_ne ht]
      exact h.script t
  · intro t hopened
    change (Function.update s.workers th.id w t).opened = false at hopened
    show (Function.update s.workers th.id w t).executed = []
    by_cases ht : t = th.id
    · rw [ht, Function.update_self] at hopened ⊢
      exact hunopened hopened
    · rw [Function.update_of_ne ht] at hopened ⊢
      exact h.unopened t hopened
  · intro u hu
    refine (h.joinable u hu).imp_right fun hend => ?_
    show (Function.update s.workers th.id w u.id).opened = true ∧
      (Function.update s.workers th.id w u.id).todo = []
    by_cases hid : u.id = th.id
    · rw [hid, Function.update_self]
      exact hended (hid ▸ hend)
    · rw [Function.update_of_ne hid]
      exact hend
  · exact h.returned

/-- What the thread holds before it moves. -/
theorem Accounts.split (h : s.Accounts lives) {th : Thread} {others : List Thread}
    (hperm : s.acceptor.threads.Perm (th :: others)) (hothers : ∀ u ∈ others, u.id ≠ th.id) :
    OwnsIds s.acceptor.heap ((s.workers th.id).blocks th.sp ++
        (s.sharedBlocks ++ others.flatMap fun u => (s.workers u.id).blocks u.sp)) ∧
      s.acceptor.sockets.Perm ((s.workers th.id).sockets th.sp ++
        (s.unstarted.map SocketProcessing.sockfd ++
          others.flatMap fun u => (s.workers u.id).sockets u.sp)) ∧
      s.devices.Perm ((s.workers th.id).devices (lives th.id) th.id ++
        others.flatMap fun u => (s.workers u.id).devices (lives u.id) u.id) := by
  have hsame : Function.update s.workers th.id (s.workers th.id) = s.workers :=
    Function.update_eq_self ..
  refine ⟨h.blocks.perm ?_, h.sockets.trans ?_, h.devices.trans ?_⟩
  · have hflat := flatMap_update hperm hothers s.workers (s.workers th.id) fun w u => w.blocks u.sp
    rw [hsame] at hflat
    exact (hflat.append_left s.sharedBlocks).trans (List.perm_append_comm_assoc ..)
  · have hflat := flatMap_update hperm hothers s.workers (s.workers th.id) fun w u => w.sockets u.sp
    rw [hsame] at hflat
    exact (hflat.append_left _).trans (List.perm_append_comm_assoc ..)
  · have hflat := flatMap_update hperm hothers s.workers (s.workers th.id)
      fun w u => w.devices (lives u.id) u.id
    rw [hsame] at hflat
    exact hflat

/-! ### The steps of a thread -/

theorem Accounts.step_opens (h : s.Accounts lives) (t : Nat) :
    (step lives s (.opens t)).Accounts lives := by
  simp only [step]
  cases hth : s.thread t with
  | none => exact h
  | some th =>
      by_cases hopened : (s.workers t).opened = true
      · simpa only [if_pos hopened] using h
      obtain ⟨rfl, others, hperm, hothers⟩ := h.others hth
      obtain ⟨hblocks, hsockets, hdevices⟩ := h.split hperm hothers
      have hnothing := h.unopened th.id (by simpa using hopened)
      simp only [if_neg hopened]
      refine h.moveWorker hperm hothers hblocks hsockets ?_ (h.script th.id) (by simp) ?_
      · have hnone : (s.workers th.id).devices (lives th.id) th.id = [] := by
          simp [Worker.devices, hopened]
        rw [hnone, List.nil_append] at hdevices
        by_cases hopens : (lives th.id).env.opens = true
        · simp only [Worker.devices, hopens, hnothing, List.not_mem_nil, not_false_eq_true,
            and_self, if_true]
          exact hdevices.cons th.id
        · rw [if_neg hopens, Worker.devices, if_neg (fun hboth => hopens hboth.2.1)]
          exact hdevices
      · exact fun hend => absurd hend.1 hopened

theorem Accounts.step_grow (h : s.Accounts lives) (t : Nat) :
    (step lives s (.grow t)).Accounts lives := by
  simp only [step]
  cases hth : s.thread t with
  | none => exact h
  | some th =>
      simp only
      split
      next hgrows =>
        obtain ⟨rfl, others, hperm, hothers⟩ := h.others hth
        obtain ⟨hblocks, hsockets, hdevices⟩ := h.split hperm hothers
        obtain ⟨hopened, -, -, htodo, hkeeps⟩ := hgrows
        have hdata : Event.freeData ∉ (s.workers th.id).executed := by
          intro hmem
          have hreleases := hkeeps _ hmem
          cases hreleases
        refine h.moveWorker hperm hothers ?_ hsockets hdevices (h.script th.id)
          (h.unopened th.id) id
        -- The new block takes the place of the old one.
        simp only [Worker.blocks, if_neg hdata] at hblocks ⊢
        cases hold : (s.workers th.id).data with
        | none =>
            rw [hold] at hblocks
            exact hblocks.alloc
        | some p =>
            rw [hold] at hblocks
            exact hblocks.alloc.free (List.Perm.swap ..)
      next => exact h

theorem Accounts.step_event (h : s.Accounts lives) (t : Nat) :
    (step lives s (.event t)).Accounts lives := by
  simp only [step]
  cases hth : s.thread t with
  | none => exact h
  | some th =>
      cases htodo : (s.workers t).todo with
      | nil => exact h
      | cons e todo =>
          by_cases hopened : (s.workers t).opened = true
          · obtain ⟨rfl, others, hperm, hothers⟩ := h.others hth
            obtain ⟨hblocks, hsockets, hdevices⟩ := h.split hperm hothers
            have hscript := h.script th.id
            rw [htodo] at hscript
            have hdone := performed todo ((lives th.id).position hscript) hblocks hsockets
            simp only [if_pos hopened]
            rw [hdone.rest]
            refine h.moveWorker hperm hothers hdone.blocks hdone.sockets ?_ ?_ ?_ ?_
            · by_cases he : e = .closeDevice
              · subst he
                have hopens := (lives th.id).opens_of_event hscript
                have hout := ((lives th.id).position hscript).not_mem_closeDevice
                have hclosed := hdevices.erase th.id
                rw [Worker.devices, if_pos ⟨hopened, hopens, hout⟩, List.singleton_append,
                  List.erase_cons_head] at hclosed
                simpa [Worker.devices] using hclosed
              · have hsame : Event.closeDevice ∈ (s.workers th.id).executed ++ [e] ↔
                    Event.closeDevice ∈ (s.workers th.id).executed := by
                  simp [Ne.symm he]
                simpa only [if_neg he, Worker.devices, hsame] using hdevices
            · show _ ++ [e] ++ todo = _
              rw [List.append_assoc]
              exact hscript
            · intro hclosed
              change (s.workers th.id).opened = false at hclosed
              rw [hopened] at hclosed
              cases hclosed
            · intro hend
              have hempty := hend.2
              rw [htodo] at hempty
              cases hempty
          · simpa only [hopened, Bool.false_eq_true, if_false] using h

/-! ### The steps of `main` -/

theorem Accounts.step_leave (h : s.Accounts lives) : (step lives s .leave).Accounts lives := by
  simp only [step]
  split
  next hserving =>
    have hblocks := h.blocks
    rw [if_neg (by rw [hserving]; exact nofun)] at hblocks
    exact { h with blocks := hblocks, returned := nofun }
  next => exact h

/-- The node of a thread that has ended is dropped. -/
theorem Accounts.dropNode (h : s.Accounts lives) {node : ThreadNode} {nodes : List ThreadNode}
    (hmain : s.main = .joining) (hlist : s.acceptor.threadList = node :: nodes)
    (hended : ∀ t ∈ node.dataNode, s.Ended t) : (s.dropNode node nodes).Accounts lives := by
  have hblocks := h.blocks
  rw [hlist, if_neg (by rw [hmain]; exact nofun), List.map_cons] at hblocks
  refine { h with blocks := ?_, joinable := ?_, returned := ?_ }
  · show OwnsIds (s.acceptor.heap.free (some node.block))
      ((if s.main = .returned then [] else _) ++ _ ++ _ ++ _)
    rw [if_neg (by rw [hmain]; exact nofun)]
    exact hblocks.free (List.Perm.swap ..)
  · intro t ht
    rcases h.joinable t ht with hnode | hend
    · rw [hlist, List.map_cons, List.mem_cons] at hnode
      rcases hnode with hnode | hnode
      · exact .inr (hended t.id hnode.symm)
      · exact .inl hnode
    · exact .inr hend
  · intro hret
    change s.main = .returned at hret
    rw [hmain] at hret
    cases hret

theorem Accounts.step_join (h : s.Accounts lives) : (step lives s .join).Accounts lives := by
  simp only [step]
  by_cases hmain : s.main = .joining
  · rw [if_pos hmain]
    cases hlist : s.acceptor.threadList with
    | nil =>
        have hblocks := h.blocks
        rw [if_neg (by rw [hmain]; exact nofun)] at hblocks
        refine { h with blocks := ?_, returned := fun _ => hlist }
        exact hblocks.free (List.Perm.refl _)
    | cons node nodes =>
        have hended : ∀ b, node.dataNode = b → (match b with
            | none => s.dropNode node nodes
            | some t => if s.Ended t then s.dropNode node nodes else s).Accounts lives := by
          intro b hb
          cases b with
          | none => exact h.dropNode hmain hlist (by simp [hb])
          | some t =>
              by_cases hend : s.Ended t
              · simp only [if_pos hend]
                refine h.dropNode hmain hlist fun u hu => ?_
                rw [hb] at hu
                exact Option.mem_some.1 hu ▸ hend
              · simpa only [if_neg hend] using h
        exact hended _ rfl
  · rwa [if_neg hmain]

theorem Accounts.step_serve (h : s.Accounts lives) (a : Round) :
    (step lives s (.serve a)).Accounts lives := by
  simp only [step]
  by_cases hmain : s.main = .serving
  · rw [if_pos hmain]
    rcases Acceptor.round_cases h.blocks a with ⟨hstarts, heap, n, hround, hblocks⟩ |
      ⟨heap, node, sp, hblocks, ⟨hstarts, hround⟩ | ⟨hstarts, hround⟩⟩
    · simp only [hround, if_pos hstarts]
      exact { h with blocks := hblocks }
    · have hnew := h.unborn _ (Nat.le_refl _)
      simp only [hround, if_pos hstarts]
      constructor
      · refine hblocks.perm ?_
        show List.Perm _ ((if s.main = .returned then [] else [s.connInfo]) ++
          (node :: s.acceptor.threadList.map ThreadNode.block) ++
          s.unstarted.flatMap SocketProcessing.blocks ++
          ((s.workers s.acceptor.threads.length).blocks sp ++
            s.acceptor.threads.flatMap fun t => (s.workers t.id).blocks t.sp))
        have hheld : (lives s.acceptor.threads.length).worker.blocks sp = sp.blocks := rfl
        rw [hnew, hheld]
        refine List.perm_iff_count.2 fun x => ?_
        simp only [List.count_cons, List.count_append]
        omega
      · show List.Perm (sp.sockfd :: s.acceptor.sockets)
          (_ ++ ((s.workers s.acceptor.threads.length).sockets sp ++ _))
        rw [hnew]
        exact (h.sockets.cons sp.sockfd).trans (List.perm_middle).symm
      · show List.Perm s.devices ((s.workers s.acceptor.threads.length).devices _ _ ++ _)
        rw [hnew]
        exact h.devices
      · rw [List.map_cons, List.length_cons, List.range_succ, List.reverse_append, h.ids]
        rfl
      · intro t ht
        exact h.unborn t (Nat.le_of_succ_le ht)
      · exact h.script
      · exact h.unopened
      · intro t ht
        rcases List.mem_cons.1 ht with rfl | ht
        · exact .inl (List.mem_cons_self ..)
        · exact (h.joinable t ht).imp_left (List.mem_cons_of_mem _)
      · intro hret
        change s.main = .returned at hret
        rw [hmain] at hret
        cases hret
    · simp only [hround, if_neg hstarts]
      constructor
      · refine hblocks.perm ?_
        show List.Perm _ ((if s.main = .returned then [] else [s.connInfo]) ++
          (node :: s.acceptor.threadList.map ThreadNode.block) ++
          (sp.blocks ++ s.unstarted.flatMap SocketProcessing.blocks) ++ _)
        refine List.perm_iff_count.2 fun x => ?_
        simp only [List.count_cons, List.count_append]
        omega
      · exact h.sockets.cons sp.sockfd
      · exact h.devices
      · exact h.ids
      · exact h.unborn
      · exact h.script
      · exact h.unopened
      · intro t ht
        exact (h.joinable t ht).imp_left (List.mem_cons_of_mem _)
      · intro hret
        change s.main = .returned at hret
        rw [hmain] at hret
        cases hret
  · rwa [if_neg hmain]

/-- **One step keeps the account.** -/
theorem accounts_step (h : s.Accounts lives) (st : ServerStep) :
    (step lives s st).Accounts lives := by
  cases st with
  | serve a => exact h.step_serve a
  | leave => exact h.step_leave
  | join => exact h.step_join
  | opens t => exact h.step_opens t
  | grow t => exact h.step_grow t
  | event t => exact h.step_event t

theorem accounts_run (lives : Nat → Life) (steps : List ServerStep) :
    (run lives steps).Accounts lives :=
  invariant (P := fun _ _ => True) (fun _ st h _ => accounts_step h st) (accounts_start lives)
    (along_of_forall fun _ _ => trivial)

/-! ## What is left -/

/-- Every connection that was given a node was given a thread. -/
def StartsThread (s : ServerRun) : ServerStep → Prop
  | .serve a => s.main = .serving → a.Starts
  | _ => True

instance (s : ServerRun) : (st : ServerStep) → Decidable (s.StartsThread st)
  | .serve a => inferInstanceAs (Decidable (s.main = .serving → a.Starts))
  | .leave | .join | .opens _ | .grow _ | .event _ => isTrue trivial

/-- No block, no client socket and no device descriptor. -/
structure NothingLeft (s : ServerRun) : Prop where
  blocks : ∀ p, s.acceptor.heap.blocks p = none
  sockets : s.acceptor.sockets = []
  devices : s.devices = []

/-- Only the accept loop hands connections out. -/
theorem unstarted_step {st : ServerStep} (h : ∀ a, st ≠ .serve a) :
    (step lives s st).unstarted = s.unstarted := by
  cases st with
  | serve a => exact absurd rfl (h a)
  | leave =>
      simp only [step]
      split <;> rfl
  | join =>
      simp only [step]
      split
      · split
        · rfl
        · split
          · rfl
          · split <;> rfl
      · rfl
  | opens t =>
      simp only [step]
      split
      · rfl
      · split <;> rfl
  | grow t =>
      simp only [step]
      split
      · rfl
      · split <;> rfl
  | event t =>
      simp only [step]
      split
      · split <;> rfl
      · rfl

/-- A step remembers what was remembered before. -/
theorem unstarted_of_step {st : ServerStep} (h : (step lives s st).unstarted = []) :
    s.unstarted = [] := by
  by_cases hserve : ∃ a, st = .serve a
  · obtain ⟨a, rfl⟩ := hserve
    simp only [step] at h
    split at h
    · simp only at h
      split at h
      · exact h
      · exact (List.append_eq_nil_iff.1 h).2
    · exact h
  · rwa [unstarted_step fun a ha => hserve ⟨a, ha⟩] at h

theorem Accounts.unstarted_step_iff (h : s.Accounts lives) (hnone : s.unstarted = [])
    (st : ServerStep) : (step lives s st).unstarted = [] ↔ s.StartsThread st := by
  cases st with
  | serve a =>
      simp only [step, StartsThread]
      by_cases hmain : s.main = .serving
      · simp only [hmain, if_true, true_implies, hnone, List.append_nil]
        rcases Acceptor.round_cases h.blocks a with ⟨hstarts, -⟩ |
          ⟨heap, node, sp, -, ⟨hstarts, -⟩ | ⟨hstarts, hround⟩⟩
        · simp [hstarts]
        · simp [hstarts]
        · simp [hstarts, hround]
      · simp [hmain, hnone]
  | leave | join | opens t | grow t | event t =>
      exact iff_of_true ((unstarted_step (by simp)).trans hnone) trivial

theorem unstarted_run_iff (lives : Nat → Life) (steps : List ServerStep) :
    (run lives steps).unstarted = [] ↔ Along (step lives) StartsThread (start lives) steps := by
  have hstep : ∀ s st, Accounts lives s → s.StartsThread st → Accounts lives (step lives s st) :=
    fun _ st h _ => accounts_step h st
  have hgood : ∀ s st, Accounts lives s → s.unstarted = [] →
      ((step lives s st).unstarted = [] ↔ s.StartsThread st) :=
    fun _ st h hnone => h.unstarted_step_iff hnone st
  exact along_iff_of_lasting hstep hgood (fun _ _ => unstarted_of_step) (accounts_start lives) rfl

/-- A thread that has executed everything holds nothing exactly when it has come to its
clean-up. -/
theorem holds_nothing_iff (life : Life) {w : Worker}
    (hexecuted : w.executed = life.handler.events) (sp : SocketProcessing) (t : Nat) :
    (life.env.ReachesCleanUp life.endOfPacket →
      w.blocks sp = [] ∧ w.sockets sp = [] ∧ w.devices life t = []) ∧
      (w.blocks sp = [] → life.env.ReachesCleanUp life.endOfPacket) := by
  constructor
  · intro hreaches
    have hreleases := (releases_once_iff life.env life.fuel life.kernel life.endOfPacket
      life.handler life.ends).2 hreaches
    have hmem : ∀ e : Event, life.handler.events.count e = 1 → e ∈ w.executed := by
      intro e hcount
      rw [hexecuted]
      exact List.count_pos_iff.1 (by omega)
    simp only [Worker.blocks, Worker.sockets, Worker.devices, if_pos (hmem _ hreleases.data),
      if_pos (hmem _ hreleases.packet), if_pos (hmem _ hreleases.connectionInfo),
      if_pos (hmem _ hreleases.socketProcessing), if_pos (hmem _ hreleases.socket),
      hmem _ (hreleases.device hreaches.opens), not_true_eq_false, and_false, if_false,
      List.append_nil, and_self]
  · intro hnone
    have hpacket : Event.freePacket ∈ life.handler.events := by
      rw [← hexecuted]
      by_contra hout
      simp [Worker.blocks, hout] at hnone
    cases dataProcessing_exit life.ends with
    | openFails hopens hevents => simp [hevents] at hpacket
    | fstatFails hfstats hevents => simp [hevents] at hpacket
    | reallocFails hworking hfails hevents =>
        rw [hevents, List.mem_append] at hpacket
        rcases hpacket with hmem | hmem
        · have hkeeps := hworking.keeps _ hmem
          cases hkeeps
        · simp at hmem
    | cleansUp hworking hreaches hevents => exact hreaches

/-- **What the server leaves behind.**  However the steps of `main` and of the threads
interleave, nothing is freed twice and nothing is used that has been freed; and when `main`
has returned, no block, no client socket and no device descriptor is left exactly when
`pthread_create` has started every thread and every thread has come to its clean-up. -/
theorem server_leaves_nothing_iff (lives : Nat → Life) (steps : List ServerStep) :
    (run lives steps).acceptor.heap.faults = 0 ∧
      ((run lives steps).main = .returned →
        ((run lives steps).NothingLeft ↔
          Along (step lives) StartsThread (start lives) steps ∧
            ∀ t ∈ (run lives steps).acceptor.threads,
              (lives t.id).env.ReachesCleanUp (lives t.id).endOfPacket)) := by
  have h := accounts_run lives steps
  generalize hs : run lives steps = s at h
  refine ⟨h.blocks.faultless, fun hret => ?_⟩
  have hended : ∀ t ∈ s.acceptor.threads,
      (s.workers t.id).executed = (lives t.id).handler.events := by
    intro t ht
    rcases h.joinable t ht with hnode | hend
    · rw [h.returned hret] at hnode
      cases hnode
    · have hscript := h.script t.id
      rwa [hend.2, List.append_nil] at hscript
  have hblocks := h.blocks
  rw [if_pos hret, h.returned hret] at hblocks
  rw [← unstarted_run_iff, hs]
  constructor
  · intro hnothing
    have hempty : s.unstarted.flatMap SocketProcessing.blocks ++
        s.acceptor.threads.flatMap (fun t => (s.workers t.id).blocks t.sp) = [] := by
      refine List.eq_nil_iff_forall_not_mem.2 fun p hp => ?_
      have hlive := (hblocks.isSome_blocks_iff p).2 (by simpa using hp)
      rw [hnothing.blocks p] at hlive
      cases hlive
    obtain ⟨hunstarted, hthreads⟩ := List.append_eq_nil_iff.1 hempty
    constructor
    · refine List.eq_nil_iff_forall_not_mem.2 fun sp hsp => ?_
      have hnone := List.flatMap_eq_nil_iff.1 hunstarted sp hsp
      cases hnone
    · intro t ht
      exact (holds_nothing_iff (lives t.id) (hended t ht) t.sp t.id).2
        (List.flatMap_eq_nil_iff.1 hthreads t ht)
  · rintro ⟨hunstarted, hreaches⟩
    have hnone : ∀ t ∈ s.acceptor.threads, (s.workers t.id).blocks t.sp = [] ∧
        (s.workers t.id).sockets t.sp = [] ∧ (s.workers t.id).devices (lives t.id) t.id = [] := by
      intro t ht
      exact (holds_nothing_iff (lives t.id) (hended t ht) t.sp t.id).1 (hreaches t ht)
    constructor
    · intro p
      rw [hunstarted, List.flatMap_eq_nil_iff.2 fun t ht => (hnone t ht).1] at hblocks
      by_contra hlive
      have hmem := (hblocks.isSome_blocks_iff p).1 (Option.isSome_iff_ne_none.2 hlive)
      simp at hmem
    · have hsockets := h.sockets
      rw [hunstarted, List.flatMap_eq_nil_iff.2 fun t ht => (hnone t ht).2.1] at hsockets
      exact hsockets.eq_nil
    · have hdevices := h.devices
      rw [List.flatMap_eq_nil_iff.2 fun t ht => (hnone t ht).2.2] at hdevices
      exact hdevices.eq_nil

/-- A thread whose client sends a line in two segments. -/
def calmLife : Life :=
  { env := .calm [[97], [10]]
    fuel := 9
    kernel := runCalls (fun _ _ => 0) []
    endOfPacket := false
    handler := (dataProcessing (.calm [[97], [10]]) 9 (runCalls (fun _ _ => 0) []) false).get
      (by decide +kernel)
    ends := (Option.some_get _).symm }

/-- `main` leaves its accept loop and waits for the one thread it has started. -/
def oneConnection : List ServerStep :=
  [.serve ⟨true, true, true, true, true, true⟩, .opens 0, .grow 0, .leave, .join, .grow 0] ++
    List.replicate 11 (.event 0) ++ [.join, .join]

theorem server_leaves_nothing_oneConnection : (run (fun _ => calmLife) oneConnection).NothingLeft := by
  have h := (server_leaves_nothing_iff (fun _ => calmLife) oneConnection).2 (by decide +kernel)
  refine h.2 ⟨by decide +kernel, fun t _ => ?_⟩
  exact
    { opens := rfl
      fstats := rfl
      reallocs := fun n hfails => Bool.noConfusion hfails.fails }

end ServerRun

end Aesd.Server
