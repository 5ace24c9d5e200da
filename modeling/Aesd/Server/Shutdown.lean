import Aesd.Server.Connections
import Aesd.Server.Progress

/-!
# The server comes to its end

A signal sets `exit_requested`.  `main` tests it in front of each `accept`, and a handler
in front of each `recv`; then `main` joins the threads of `thread_list` one after another,
while they go on.  So a signal ends the server, and nothing else does: a handler that
receives nothing but the end of its stream goes round until the signal comes, and no handler
waits for `file_mutex` for ever.  When `main` destroys the mutex, nobody holds it.

Blocks and descriptors are the subject of `ServerRun`; here it is who waits for whom.
-/

namespace Aesd.Server

open Aesd.Driver
open Aesd.Verified.BlockHeap
open Aesd.Verified.Fairness

/-! ## The program -/

/-- Where `main` is: at the test of its accept loop, in `accept`, in the loop over
`thread_list`, at its end. -/
inductive MainPhase
  | testing
  | accepting
  | joining
  | returned
  deriving DecidableEq

/-- The program: what the accept loop works on, where `main` is, `exit_requested`, the
handlers by the numbers of their threads, and which of them have passed their test of
`exit_requested` and are in `recv`. -/
structure Aesdsocket where
  acceptor : Acceptor
  main : MainPhase
  exitRequested : Bool
  handlers : World Nat
  inRecv : Nat → Bool

namespace Aesdsocket

/-- A signal, a step of `main`, or one of a handler, with what the system answers.  What is
said of `exits` in the step of a handler is not looked at. -/
inductive Step
  | signal
  | main (a : Round)
  | handler (m : Move Nat)

/-- The program when `setup_socket` has succeeded. -/
def start (kernel : Kernel) (endOfPacket : Nat → Bool) : Aesdsocket :=
  { acceptor := .start
    main := .testing
    exitRequested := false
    handlers := .start kernel endOfPacket
    inRecv := fun _ => false }

/-- The numbers of the threads that have been started. -/
def started (s : Aesdsocket) : List Nat := s.acceptor.threads.map Thread.id

/-- The thread has returned or called `pthread_exit`. -/
def Ended (s : Aesdsocket) (t : Nat) : Prop := (s.handlers.clients t).phase = .done

instance (s : Aesdsocket) (t : Nat) : Decidable (s.Ended t) :=
  inferInstanceAs (Decidable (_ = _))

/-- The thread of the first node has been joined. -/
def dropNode (s : Aesdsocket) (node : ThreadNode) (nodes : List ThreadNode) : Aesdsocket :=
  { s with acceptor := ({ s.acceptor with
      joined := s.acceptor.joined ++ [node.dataNode], threadList := nodes }).free node.block }

/-- A step of `main`.  An `accept` that fails because the exit has been requested ends the
loop as the next test would. -/
def stepMain (s : Aesdsocket) (a : Round) : Aesdsocket :=
  match s.main with
  | .testing => { s with main := if s.exitRequested then .joining else .accepting }
  | .accepting => { s with acceptor := s.acceptor.round a, main := .testing }
  | .joining =>
      match s.acceptor.threadList with
      | [] => { s with main := .returned }
      | node :: nodes =>
          match node.dataNode with
          | none => s.dropNode node nodes
          | some t => if s.Ended t then s.dropNode node nodes else s
  | .returned => s

/-- A step of a handler.  A signal may come between its test of `exit_requested` and the end
of its `recv`. -/
def stepHandler (s : Aesdsocket) (m : Move Nat) : Aesdsocket :=
  if (s.handlers.clients m.thread).phase = .receiving ∧ s.inRecv m.thread = false then
    if s.exitRequested then { s with handlers := s.handlers.step { m with exits := true } }
    else { s with inRecv := Function.update s.inRecv m.thread true }
  else
    { s with
      handlers := s.handlers.step { m with exits := false }
      inRecv := Function.update s.inRecv m.thread false }

def step (s : Aesdsocket) : Step → Aesdsocket
  | .signal => { s with exitRequested := true }
  | .main a => s.stepMain a
  | .handler m => if m.thread ∈ s.started then s.stepHandler m else s

/-- `pthread_create` does not fail, and the kernel answers as it can. -/
def Regular (s : Aesdsocket) : Step → Prop
  | .signal => True
  | .main a => s.main = .accepting → a.Starts
  | .handler m => m.sched.Realistic

end Aesdsocket

/-! ## A step of `main` -/

/-- An iteration of the accept loop in which nothing fails. -/
def Round.calm : Round := ⟨true, true, true, true, true, true⟩

/-- What an iteration of the accept loop hands to a thread: nothing, or a connection whose
node comes first in the list. -/
theorem Acceptor.threads_round (s : Acceptor) {a : Round} (hstarts : a.Starts) :
    ((s.round a).threads = s.threads ∧ (s.round a).threadList = s.threadList) ∨
      ∃ block th, (s.round a).threads = th :: s.threads ∧
        (s.round a).threadList = ⟨block, some th.id, th.sp⟩ :: s.threadList := by
  obtain ⟨accepts, sp, info, packet, node, creates⟩ := a
  match accepts, sp, info, packet, node with
  | false, _, _, _, _ => exact .inl ⟨rfl, rfl⟩
  | true, false, _, _, _ => exact .inl ⟨rfl, rfl⟩
  | true, true, false, _, _ => exact .inl ⟨rfl, rfl⟩
  | true, true, true, false, _ => exact .inl ⟨rfl, rfl⟩
  | true, true, true, true, false => exact .inl ⟨rfl, rfl⟩
  | true, true, true, true, true =>
      obtain rfl : creates = true := hstarts rfl rfl rfl rfl rfl
      exact .inr ⟨_, ⟨s.threads.length, _⟩, rfl, rfl⟩

namespace Aesdsocket

variable {s s' : Aesdsocket}

/-- What a step of `main` does. -/
inductive MainTurn (s : Aesdsocket) : Aesdsocket → Prop
  | leaves (hmain : s.main = .testing) (hexit : s.exitRequested = true) :
      s.MainTurn { s with main := .joining }
  | goesOn (hmain : s.main = .testing) (hexit : s.exitRequested = false) :
      s.MainTurn { s with main := .accepting }
  | turnsAway {acceptor : Acceptor} (hmain : s.main = .accepting)
      (hthreads : acceptor.threads = s.acceptor.threads)
      (hlist : acceptor.threadList = s.acceptor.threadList) :
      s.MainTurn { s with acceptor := acceptor, main := .testing }
  | starts {acceptor : Acceptor} (block : Nat) (th : Thread) (hmain : s.main = .accepting)
      (hthreads : acceptor.threads = th :: s.acceptor.threads)
      (hlist : acceptor.threadList = ⟨block, some th.id, th.sp⟩ :: s.acceptor.threadList) :
      s.MainTurn { s with acceptor := acceptor, main := .testing }
  | joins {acceptor : Acceptor} (node : ThreadNode) (hmain : s.main = .joining)
      (hended : ∀ t ∈ node.dataNode, s.Ended t)
      (hthreads : acceptor.threads = s.acceptor.threads)
      (hlist : s.acceptor.threadList = node :: acceptor.threadList) :
      s.MainTurn { s with acceptor := acceptor }
  | waits (node : ThreadNode) (hmain : s.main = .joining)
      (hfirst : node ∈ s.acceptor.threadList) (hruns : ∃ t ∈ node.dataNode, ¬s.Ended t) :
      s.MainTurn s
  | returns (hmain : s.main = .joining) (hnone : s.acceptor.threadList = []) :
      s.MainTurn { s with main := .returned }
  | rests (hmain : s.main = .returned) : s.MainTurn s

/-- **One step** of `main`. -/
theorem mainTurn_stepMain {a : Round} (hstarts : s.main = .accepting → a.Starts) :
    s.MainTurn (s.stepMain a) := by
  unfold stepMain
  cases hmain : s.main with
  | testing =>
      simp only
      split
      · rename_i hexit
        exact .leaves hmain hexit
      · rename_i hexit
        exact .goesOn hmain (by simpa using hexit)
  | accepting =>
      rcases s.acceptor.threads_round (hstarts hmain) with ⟨hthreads, hlist⟩ |
        ⟨block, th, hthreads, hlist⟩
      · exact .turnsAway hmain hthreads hlist
      · exact .starts block th hmain hthreads hlist
  | joining =>
      cases hlist : s.acceptor.threadList with
      | nil => exact .returns hmain hlist
      | cons node nodes =>
          simp only
          split
          · rename_i hnone
            exact .joins node hmain (by simp [hnone]) rfl hlist
          · rename_i t hsome
            split
            · rename_i hended
              refine .joins node hmain ?_ rfl hlist
              rw [hsome]
              rintro _ ⟨⟩
              exact hended
            · rename_i hruns
              exact .waits node hmain (by simp [hlist]) ⟨t, hsome, hruns⟩
  | returned => exact .rests hmain

/-- `main` has left its accept loop. -/
def Left (s : Aesdsocket) : Prop := s.main = .joining ∨ s.main = .returned

theorem MainTurn.started_subset (h : s.MainTurn s') : s.started ⊆ s'.started := by
  unfold started
  cases h with
  | leaves | goesOn | waits | returns | rests => exact List.Subset.refl _
  | turnsAway _ hthreads | joins _ _ _ hthreads =>
      rw [hthreads]
      exact List.Subset.refl _
  | starts block th _ hthreads =>
      rw [hthreads]
      exact List.subset_cons_self _ _

/-- Once `main` has left its accept loop, no thread is started and none is listed. -/
theorem MainTurn.left (h : s.MainTurn s') (hleft : s.Left) :
    s'.Left ∧ s'.started = s.started ∧ s'.acceptor.threadList ⊆ s.acceptor.threadList := by
  have hnot : ∀ {phase : MainPhase}, s.main = phase → phase = .joining ∨ phase = .returned :=
    fun hmain => hmain ▸ hleft
  cases h with
  | leaves hmain | goesOn hmain | turnsAway hmain | starts _ _ hmain =>
      exact absurd (hnot hmain) (by decide)
  | joins node hmain _ hthreads hlist =>
      refine ⟨hleft, congrArg (List.map Thread.id) hthreads, ?_⟩
      rw [hlist]
      exact List.subset_cons_self _ _
  | returns => exact ⟨.inr rfl, rfl, List.Subset.refl _⟩
  | waits | rests => exact ⟨hleft, rfl, List.Subset.refl _⟩

/-! ## A step of a handler -/

/-- What a step of handler `t` does: it enters `recv`, or makes a step of its own, in which
it sees a request of the exit if it tests it. -/
inductive HandlerTurn (s : Aesdsocket) (m : Move Nat) : Aesdsocket → Prop
  | enters (hphase : (s.handlers.clients m.thread).phase = .receiving)
      (hexit : s.exitRequested = false) :
      s.HandlerTurn m { s with inRecv := Function.update s.inRecv m.thread true }
  | exits (hphase : (s.handlers.clients m.thread).phase = .receiving)
      (hexit : s.exitRequested = true) :
      s.HandlerTurn m { s with handlers := s.handlers.step { m with exits := true } }
  | moves (hrecv : (s.handlers.clients m.thread).phase = .receiving → s.inRecv m.thread = true) :
      s.HandlerTurn m { s with
        handlers := s.handlers.step { m with exits := false }
        inRecv := Function.update s.inRecv m.thread false }

theorem handlerTurn_stepHandler (s : Aesdsocket) (m : Move Nat) :
    s.HandlerTurn m (s.stepHandler m) := by
  unfold stepHandler
  split
  · rename_i htests
    split
    · rename_i hexit
      exact .exits htests.1 hexit
    · rename_i hexit
      exact .enters htests.1 (by simpa using hexit)
  · rename_i hmoves
    refine .moves fun hphase => ?_
    by_contra hout
    exact hmoves ⟨hphase, by simpa using hout⟩

/-- A handler leaves `main`, the list and `exit_requested` alone. -/
theorem HandlerTurn.frame {m : Move Nat} (h : s.HandlerTurn m s') :
    s'.main = s.main ∧ s'.acceptor = s.acceptor ∧ s'.exitRequested = s.exitRequested := by
  cases h <;> exact ⟨rfl, rfl, rfl⟩

theorem handler_frame (s : Aesdsocket) (m : Move Nat) :
    (s.step (.handler m)).main = s.main ∧ (s.step (.handler m)).acceptor = s.acceptor ∧
      (s.step (.handler m)).exitRequested = s.exitRequested := by
  rw [step]
  split
  · exact (handlerTurn_stepHandler s m).frame
  · exact ⟨rfl, rfl, rfl⟩

/-- The steps of a handler are those of the handlers under `file_mutex`. -/
theorem HandlerTurn.handlers_cases {m : Move Nat} (h : s.HandlerTurn m s') :
    s'.handlers = s.handlers ∨
      ∃ m', m'.thread = m.thread ∧ m'.sched = m.sched ∧ s'.handlers = s.handlers.step m' := by
  cases h with
  | enters => exact .inl rfl
  | exits => exact .inr ⟨{ m with exits := true }, rfl, rfl, rfl⟩
  | moves => exact .inr ⟨{ m with exits := false }, rfl, rfl, rfl⟩

/-- A handler that has ended has ended for good. -/
theorem HandlerTurn.ended {m : Move Nat} (h : s.HandlerTurn m s') {t : Nat} (ht : s.Ended t) :
    s'.Ended t := by
  unfold Ended at *
  rcases h.handlers_cases with hsame | ⟨m', hthread, -, hstep⟩
  · rwa [hsame]
  · rw [hstep]
    by_cases hmine : m'.thread = t
    · have hdone : (s.handlers.clients m'.thread).phase = .done := by rwa [hmine]
      simp only [World.step, hdone]
      exact ht
    · rwa [World.step_clients_of_ne hmine]

/-! ## The invariant -/

/-- What holds in every run in which `pthread_create` does not fail. -/
structure Stands (s : Aesdsocket) : Prop where
  proceeds : s.handlers.Proceeds
  unstarted : ∀ t ∉ s.started, (s.handlers.clients t).phase = .opening
  listed : ∀ node ∈ s.acceptor.threadList, ∃ t ∈ s.started, node.dataNode = some t
  joinable : ∀ t ∈ s.started,
    some t ∈ s.acceptor.threadList.map ThreadNode.dataNode ∨ s.Ended t
  returned : s.main = .returned → s.acceptor.threadList = []
  requested : s.Left → s.exitRequested = true

theorem stands_start {kernel : Kernel} (hk : Sound kernel) (endOfPacket : Nat → Bool) :
    (start kernel endOfPacket).Stands :=
  { proceeds := World.proceeds_start hk endOfPacket
    unstarted := fun _ _ => rfl
    listed := by simp [start, Acceptor.start]
    joinable := by simp [start, started, Acceptor.start]
    returned := nofun
    requested := by simp [start, Left] }

theorem Stands.main (h : s.Stands) (hturn : s.MainTurn s') : s'.Stands := by
  have hunstarted : ∀ t ∉ s'.started, (s.handlers.clients t).phase = .opening :=
    fun t ht => h.unstarted t fun hs => ht (hturn.started_subset hs)
  cases hturn with
  | leaves hmain hexit => exact { h with returned := nofun, requested := fun _ => hexit }
  | goesOn hmain => exact { h with returned := nofun, requested := by simp [Left] }
  | @turnsAway acceptor hmain hthreads hlist =>
      have hsame : acceptor.threads.map Thread.id = s.started := congrArg (List.map _) hthreads
      exact
        { proceeds := h.proceeds
          unstarted := hunstarted
          listed := by simpa only [started, hlist, hsame] using h.listed
          joinable := by simpa only [started, hlist, hsame, Ended] using h.joinable
          returned := nofun
          requested := by simp [Left] }
  | @starts acceptor block th hmain hthreads hlist =>
      have hmore : acceptor.threads.map Thread.id = th.id :: s.started :=
        congrArg (List.map _) hthreads
      constructor
      · exact h.proceeds
      · exact hunstarted
      · intro node hnode
        rw [hlist] at hnode
        show ∃ t ∈ acceptor.threads.map Thread.id, node.dataNode = some t
        rw [hmore]
        rcases List.mem_cons.1 hnode with rfl | hnode
        · exact ⟨th.id, List.mem_cons_self, rfl⟩
        · obtain ⟨t, ht, hdata⟩ := h.listed node hnode
          exact ⟨t, List.mem_cons_of_mem _ ht, hdata⟩
      · intro t ht
        change t ∈ acceptor.threads.map Thread.id at ht
        show some t ∈ acceptor.threadList.map ThreadNode.dataNode ∨ _
        rw [hmore] at ht
        rw [hlist, List.map_cons]
        rcases List.mem_cons.1 ht with rfl | ht
        · exact .inl List.mem_cons_self
        · exact (h.joinable t ht).imp_left (List.mem_cons_of_mem _)
      · exact nofun
      · simp [Left]
  | @joins acceptor node hmain hended hthreads hlist =>
      have hsame : acceptor.threads.map Thread.id = s.started := congrArg (List.map _) hthreads
      constructor
      · exact h.proceeds
      · exact hunstarted
      · intro other hother
        show ∃ t ∈ acceptor.threads.map Thread.id, other.dataNode = some t
        rw [hsame]
        exact h.listed other (hlist ▸ List.mem_cons_of_mem node hother)
      · intro t ht
        have hin := h.joinable t (hsame ▸ ht)
        rw [hlist, List.map_cons, List.mem_cons] at hin
        rcases hin with (hfirst | hin) | hdone
        · exact .inr (hended t hfirst.symm)
        · exact .inl hin
        · exact .inr hdone
      · intro hreturned
        exact absurd (hmain.symm.trans hreturned) (by decide)
      · exact h.requested
  | returns hmain hnone =>
      exact { h with returned := fun _ => hnone, requested := fun _ => h.requested (.inl hmain) }
  | waits | rests => exact h

theorem Stands.handler (h : s.Stands) {m : Move Nat} (hreal : m.sched.Realistic)
    (hstarted : m.thread ∈ s.started) (hturn : s.HandlerTurn m s') : s'.Stands := by
  obtain ⟨hmain, hacceptor, hexit⟩ := hturn.frame
  have hsame : s'.started = s.started := by rw [started, hacceptor, started]
  constructor
  · rcases hturn.handlers_cases with hstays | ⟨m', -, hsched, hstep⟩
    · rw [hstays]
      exact h.proceeds
    · rw [hstep]
      exact (h.proceeds.step (hsched ▸ hreal)).proceeds
  · intro t ht
    rw [hsame] at ht
    rcases hturn.handlers_cases with hstays | ⟨m', hthread, -, hstep⟩
    · rw [hstays]
      exact h.unstarted t ht
    · have hother : m'.thread ≠ t := fun heq => ht (heq ▸ hthread ▸ hstarted)
      rw [hstep, World.step_clients_of_ne hother]
      exact h.unstarted t ht
  · rw [hacceptor, hsame]
    exact h.listed
  · intro t ht
    rw [hacceptor]
    rw [hsame] at ht
    exact (h.joinable t ht).imp_right hturn.ended
  · rw [hmain, hacceptor]
    exact h.returned
  · rw [Left, hmain, hexit]
    exact h.requested

/-- **One step** of the program. -/
theorem Stands.step (h : s.Stands) {e : Step} (he : s.Regular e) : (s.step e).Stands := by
  cases e with
  | signal => exact { h with requested := fun _ => rfl }
  | main a => exact h.main (mainTurn_stepMain he)
  | handler m =>
      rw [Aesdsocket.step]
      split
      · rename_i hstarted
        exact h.handler he hstarted (handlerTurn_stepHandler s m)
      · exact h

/-- When `main` has returned, every thread has ended, and nobody holds the mutex that it has
destroyed. -/
theorem Stands.at_return (h : s.Stands) (hreturned : s.main = .returned) :
    s.handlers.owner = none ∧ ∀ t ∈ s.started, s.Ended t := by
  have hended : ∀ t ∈ s.started, s.Ended t := by
    intro t ht
    rcases h.joinable t ht with hlisted | hended
    · rw [h.returned hreturned] at hlisted
      cases hlisted
    · exact hended
  refine ⟨?_, hended⟩
  by_contra hheld
  obtain ⟨u, hu⟩ := Option.ne_none_iff_exists'.1 hheld
  have hholds := h.proceeds.owner u hu
  by_cases hstarted : u ∈ s.started
  · rw [hended u hstarted] at hholds
    exact absurd hholds (by decide)
  · rw [h.unstarted u hstarted] at hholds
    exact absurd hholds (by decide)

/-! ## After the request -/

/-- The steps of `main` from a request of the exit to its loop over `thread_list`. -/
def toLeave (s : Aesdsocket) : Nat :=
  match s.main with
  | .accepting => 2
  | .testing => 1
  | .joining | .returned => 0

/-- The nodes that `main` has before it, and its return. -/
def toJoin (s : Aesdsocket) : Nat :=
  s.acceptor.threadList.length + if s.main = .returned then 0 else 1

/-- What lies ahead of handler `t`: what lies ahead of it under `file_mutex`, and the end of
its `recv`. -/
def ahead (t : Nat) (s : Aesdsocket) : Nat :=
  2 * (s.handlers.clients t).ahead + (s.inRecv t).toNat

/-- The handler has ended, or it waits for the mutex that somebody holds. -/
def Idle (t : Nat) (s : Aesdsocket) : Prop :=
  s.Ended t ∨ (s.handlers.clients t).phase ∈ [Phase.locking, .relocking] ∧ s.handlers.owner ≠ none

/-- `main` only reads `exit_requested`, and leaves the handlers alone. -/
theorem stepMain_frame (s : Aesdsocket) (a : Round) :
    (s.stepMain a).exitRequested = s.exitRequested ∧ (s.stepMain a).handlers = s.handlers ∧
      (s.stepMain a).inRecv = s.inRecv := by
  unfold stepMain dropNode
  split
  · exact ⟨rfl, rfl, rfl⟩
  · exact ⟨rfl, rfl, rfl⟩
  · split
    · exact ⟨rfl, rfl, rfl⟩
    · split
      · exact ⟨rfl, rfl, rfl⟩
      · split <;> exact ⟨rfl, rfl, rfl⟩
  · exact ⟨rfl, rfl, rfl⟩

/-- A signal requests the exit, nothing else does, and the request stays. -/
theorem exitRequested_step (s : Aesdsocket) (e : Step) :
    (s.step e).exitRequested = true ↔ s.exitRequested = true ∨ e = .signal := by
  cases e with
  | signal => simp [step]
  | main a => simp [step, (stepMain_frame s a).1]
  | handler m => simp [(handler_frame s m).2.2]

/-- What every state keeps to once the exit is requested. -/
structure Requested (s : Aesdsocket) : Prop where
  stands : s.Stands
  requested : s.exitRequested = true

theorem Requested.step (h : s.Requested) {e : Step} (he : s.Regular e) : (s.step e).Requested :=
  { stands := h.stands.step he
    requested := (exitRequested_step s e).2 (.inl h.requested) }

/-- A handler that has ended has ended for good. -/
theorem Ended.step {t : Nat} (h : s.Ended t) (e : Step) : (s.step e).Ended t := by
  cases e with
  | signal => exact h
  | main a =>
      show ((s.stepMain a).handlers.clients t).phase = .done
      rw [(stepMain_frame s a).2.1]
      exact h
  | handler m =>
      rw [Aesdsocket.step]
      split
      · exact (handlerTurn_stepHandler s m).ended h
      · exact h

/-- Once `main` has left its accept loop, no thread is started and none is listed. -/
theorem Left.step (h : s.Left) {e : Step} (he : s.Regular e) :
    (s.step e).Left ∧ (s.step e).started = s.started ∧
      (s.step e).acceptor.threadList ⊆ s.acceptor.threadList := by
  cases e with
  | signal => exact ⟨h, rfl, List.Subset.refl _⟩
  | main a => exact (mainTurn_stepMain he).left h
  | handler m =>
      obtain ⟨hmain, hacceptor, -⟩ := handler_frame s m
      rw [Left, started, hmain, hacceptor]
      exact ⟨h, rfl, List.Subset.refl _⟩

theorem started_step {e : Step} (he : s.Regular e) : s.started ⊆ (s.step e).started := by
  cases e with
  | signal => exact List.Subset.refl _
  | main a => exact (mainTurn_stepMain he).started_subset
  | handler m =>
      rw [started, started, (handler_frame s m).2.1]
      exact List.Subset.refl _

/-! ### `main` leaves its accept loop -/

/-- `main` comes nearer to its loop over `thread_list` with each of its steps. -/
theorem MainTurn.toLeave_le (hturn : s.MainTurn s') (hexit : s.exitRequested = true) :
    s'.toLeave ≤ s.toLeave ∧ (s.Left ∨ s'.toLeave < s.toLeave) := by
  unfold toLeave Left
  cases hturn with
  | leaves hmain | turnsAway hmain | starts _ _ hmain | joins _ hmain | waits _ hmain
  | returns hmain | rests hmain => simp [hmain]
  | goesOn hmain hno =>
      rw [hexit] at hno
      cases hno

theorem Requested.toLeave_le (h : s.Requested) {e : Step} (he : s.Regular e) :
    (s.step e).toLeave ≤ s.toLeave := by
  cases e with
  | signal => exact Nat.le_refl _
  | main a => exact ((mainTurn_stepMain he).toLeave_le h.requested).1
  | handler m =>
      rw [toLeave, (handler_frame s m).1]
      exact Nat.le_refl _

/-! ### The handlers end -/

/-- No step of a handler puts anything ahead of one, and its own take something away. -/
theorem HandlerTurn.ahead_le (h : s.Requested) {m : Move Nat} (hreal : m.sched.Realistic)
    (hturn : s.HandlerTurn m s') (t : Nat) :
    s'.ahead t ≤ s.ahead t ∧ (m.thread = t → s.Idle t ∨ s'.ahead t < s.ahead t) := by
  by_cases hmine : m.thread = t
  · subst hmine
    cases hturn with
    | enters _ hno =>
        rw [h.requested] at hno
        cases hno
    | exits hphase =>
        have hlower : ((s.handlers.step { m with exits := true }).clients m.thread).ahead <
            (s.handlers.clients m.thread).ahead := by
          apply Client.ahead_lt_of_phase
          simp [World.step, hphase, World.put, Phase.ahead]
        unfold ahead
        exact ⟨by simp only; omega, fun _ => .inr (by simp only; omega)⟩
    | moves hrecv =>
        have hgets := (h.stands.proceeds.step (m := { m with exits := false }) hreal).ahead
        simp only at hgets
        unfold ahead
        simp only [Function.update_self, Bool.toNat_false]
        refine ⟨by omega, fun _ => ?_⟩
        by_cases hphase : (s.handlers.clients m.thread).phase = .receiving
        · -- The end of its `recv`.
          rw [hrecv hphase, Bool.toNat_true]
          exact .inr (by omega)
        · rcases hgets with hlower | ⟨hvain, -⟩
          · exact .inr (by omega)
          · left
            rcases hvain with hrest | hwaits
            · simp only [List.mem_cons, List.not_mem_nil, or_false, hphase] at hrest
              exact .inl hrest
            · exact .inr hwaits
  · refine ⟨?_, fun heq => absurd heq hmine⟩
    unfold ahead
    cases hturn with
    | enters => simp [Function.update_of_ne (Ne.symm hmine)]
    | exits =>
        rw [World.step_clients_of_ne (m := { m with exits := true }) hmine]
    | moves =>
        simp only [Function.update_of_ne (Ne.symm hmine)]
        rw [World.step_clients_of_ne (m := { m with exits := false }) hmine]

/-- A handler with the same ahead of it is in the same phase. -/
theorem phase_eq_of_ahead_eq {t : Nat} (h : s'.ahead t = s.ahead t) :
    (s'.handlers.clients t).phase = (s.handlers.clients t).phase := by
  have hlow := Bool.toNat_le (s.inRecv t)
  have hlow' := Bool.toNat_le (s'.inRecv t)
  unfold ahead at h
  exact Client.phase_eq_of_ahead_eq (by omega)

/-- A handler that may be scheduled in vain is in no locked section. -/
theorem Idle.not_holds {t : Nat} (h : s.Idle t) : ¬(s.handlers.clients t).phase.Holds := by
  have hidle : s.handlers.Idle t := h.imp_left fun hended => by
    unfold Ended at hended
    simp [hended]
  exact hidle.not_holds

theorem Requested.ahead_le (h : s.Requested) {e : Step} (he : s.Regular e) (t : Nat) :
    (s.step e).ahead t ≤ s.ahead t := by
  cases e with
  | signal => exact Nat.le_refl _
  | main a =>
      obtain ⟨-, hhandlers, hrecv⟩ := stepMain_frame s a
      show (s.stepMain a).ahead t ≤ s.ahead t
      rw [ahead, hhandlers, hrecv]
      exact Nat.le_refl _
  | handler m =>
      rw [Aesdsocket.step]
      split
      · exact ((handlerTurn_stepHandler s m).ahead_le h he t).1
      · exact Nat.le_refl _

/-- `main` has left its accept loop, and has started the threads `threads`. -/
structure Leaving (threads : List Nat) (s : Aesdsocket) : Prop where
  requested : s.Requested
  left : s.Left
  started : s.started = threads

theorem Leaving.step {threads : List Nat} (h : s.Leaving threads) {e : Step} (he : s.Regular e) :
    (s.step e).Leaving threads := by
  obtain ⟨hleft, hstarted, -⟩ := h.left.step he
  exact ⟨h.requested.step he, hleft, hstarted.trans h.started⟩

/-- A step of a started handler brings it nearer to its end, or is in vain. -/
theorem Leaving.handler {threads : List Nat} (h : s.Leaving threads) {m : Move Nat}
    (hm : m.thread ∈ threads) (he : s.Regular (.handler m)) :
    s.Idle m.thread ∨ (s.step (.handler m)).ahead m.thread < s.ahead m.thread := by
  have hmove : s.step (.handler m) = s.stepHandler m := if_pos (h.started ▸ hm)
  rw [hmove]
  exact ((handlerTurn_stepHandler s m).ahead_le h.requested he m.thread).2 rfl

/-! ### `main` joins the threads -/

/-- `main` has left its accept loop, and the threads it has still to join have ended. -/
structure Joining (s : Aesdsocket) : Prop where
  stands : s.Stands
  left : s.Left
  ended : ∀ node ∈ s.acceptor.threadList, ∀ t ∈ node.dataNode, s.Ended t

theorem Joining.step (h : s.Joining) {e : Step} (he : s.Regular e) : (s.step e).Joining := by
  obtain ⟨hleft, -, hlist⟩ := h.left.step he
  refine ⟨h.stands.step he, hleft, fun node hnode t ht => ?_⟩
  exact (h.ended node (hlist hnode) t ht).step e

/-- `main` never waits then. -/
theorem MainTurn.toJoin_le (h : s.Joining) (hturn : s.MainTurn s') :
    s'.toJoin ≤ s.toJoin ∧ (s.main = .returned ∨ s'.toJoin < s.toJoin) := by
  have hnot : ∀ {phase : MainPhase}, s.main = phase → phase = .joining ∨ phase = .returned :=
    fun hmain => hmain ▸ h.left
  unfold toJoin
  cases hturn with
  | leaves hmain | goesOn hmain | turnsAway hmain | starts _ _ hmain =>
      exact absurd (hnot hmain) (by decide)
  | joins node hmain _ _ hlist => simp [hmain, hlist]
  | waits node _ hfirst hruns =>
      obtain ⟨t, ht, hruns⟩ := hruns
      exact absurd (h.ended node hfirst t ht) hruns
  | returns hmain => simp [hmain]
  | rests hmain => exact ⟨Nat.le_refl _, .inl hmain⟩

theorem Joining.toJoin_le (h : s.Joining) {e : Step} (he : s.Regular e) :
    (s.step e).toJoin ≤ s.toJoin := by
  cases e with
  | signal => exact Nat.le_refl _
  | main a => exact ((mainTurn_stepMain he).toJoin_le h).1
  | handler m =>
      obtain ⟨hmain, hacceptor, -⟩ := handler_frame s m
      rw [toJoin, hmain, hacceptor]
      exact Nat.le_refl _

theorem returned_step (h : s.main = .returned) (e : Step) : (s.step e).main = .returned := by
  cases e with
  | signal => exact h
  | main a =>
      show (s.stepMain a).main = .returned
      simp only [stepMain, h]
  | handler m => exact (handler_frame s m).1.trans h

/-! ## Runs without end -/

section Endless

variable (kernel : Kernel) (endOfPacket : Nat → Bool) (steps : ℕ → Step)

/-- The program after so many steps. -/
def after (n : ℕ) : Aesdsocket := stateAt step (start kernel endOfPacket) steps n

variable {kernel endOfPacket steps}

theorem requested_iff (n : ℕ) :
    (after kernel endOfPacket steps n).exitRequested = true ↔ ∃ k < n, steps k = .signal := by
  induction n with
  | zero => simp [after, stateAt, start]
  | succ n ih =>
      show ((after kernel endOfPacket steps n).step (steps n)).exitRequested = true ↔ _
      rw [exitRequested_step, ih]
      constructor
      · rintro (⟨k, hk, hsignal⟩ | hsignal)
        · exact ⟨k, Nat.lt_succ_of_lt hk, hsignal⟩
        · exact ⟨n, Nat.lt_succ_self n, hsignal⟩
      · rintro ⟨k, hk, hsignal⟩
        rcases Nat.lt_succ_iff_lt_or_eq.1 hk with hlt | rfl
        · exact .inl ⟨k, hlt, hsignal⟩
        · exact .inr hsignal

theorem ended_after {t n k : ℕ} (hk : n ≤ k) (h : (after kernel endOfPacket steps n).Ended t) :
    (after kernel endOfPacket steps k).Ended t :=
  stays (p := fun k => (after kernel endOfPacket steps k).Ended t) (fun k h => h.step (steps k))
    hk h

variable (hk : Sound kernel)
  (hregular : ∀ n, (after kernel endOfPacket steps n).Regular (steps n))

include hregular

theorem started_after {n k : ℕ} (hk : n ≤ k) :
    (after kernel endOfPacket steps n).started ⊆ (after kernel endOfPacket steps k).started :=
  stays (p := fun k => (after kernel endOfPacket steps n).started ⊆
      (after kernel endOfPacket steps k).started)
    (fun k h => List.Subset.trans h (started_step (hregular k))) hk (List.Subset.refl _)

/-- What holds from the moment on at which `main` has left its accept loop. -/
theorem left_after {n k : ℕ} (hk : n ≤ k) (hleft : (after kernel endOfPacket steps n).Left) :
    (after kernel endOfPacket steps k).Left ∧
      (after kernel endOfPacket steps k).started = (after kernel endOfPacket steps n).started ∧
      (after kernel endOfPacket steps k).acceptor.threadList ⊆
        (after kernel endOfPacket steps n).acceptor.threadList := by
  induction k, hk using Nat.le_induction with
  | base => exact ⟨hleft, rfl, List.Subset.refl _⟩
  | succ k _ ih =>
      obtain ⟨hmain, hstarted, hlist⟩ := ih.1.step (hregular k)
      exact ⟨hmain, hstarted.trans ih.2.1, List.Subset.trans hlist ih.2.2⟩

include hk

theorem stands_after (n : ℕ) : (after kernel endOfPacket steps n).Stands :=
  invariant_at (fun _ _ h he => h.step he) (stands_start hk endOfPacket) hregular n

/-- **`main` leaves its accept loop** after a signal. -/
theorem exists_left (hmain : ∀ n, ∃ k ≥ n, ∃ a, steps k = .main a)
    (hsignal : ∃ n, steps n = .signal) : ∃ n, (after kernel endOfPacket steps n).Left := by
  obtain ⟨n, hn⟩ := hsignal
  have hrequested : (after kernel endOfPacket steps (n + 1)).Requested :=
    { stands := stands_after hk hregular (n + 1)
      requested := (requested_iff (n + 1)).2 ⟨n, Nat.lt_succ_self n, hn⟩ }
  have hown : ∀ (s : Aesdsocket) e, s.Requested → s.Regular e → (∃ a, e = .main a) →
      s.Left ∨ (s.step e).toLeave < s.toLeave := by
    rintro s _ h he ⟨a, rfl⟩
    exact ((mainTurn_stepMain he).toLeave_le h.requested).2
  obtain ⟨k, -, hleft⟩ := comes_to_idle (fun e => ∃ a, e = .main a) toLeave Left
    (fun _ _ h he => h.step he) (fun _ _ h he => h.toLeave_le he) hown hregular hmain hrequested
  exact ⟨k, hleft⟩

/-- **The started handlers end** when `main` has left its accept loop and each of them goes on
again and again. -/
theorem exists_ended {n : ℕ} (hleft : (after kernel endOfPacket steps n).Left)
    (hfair : ∀ t ∈ (after kernel endOfPacket steps n).started, ∀ n, ∃ k ≥ n,
      ∃ m, steps k = .handler m ∧ m.thread = t)
    {t : Nat} (ht : t ∈ (after kernel endOfPacket steps n).started) :
    ∃ k, (after kernel endOfPacket steps k).Ended t := by
  have hstands := stands_after hk hregular
  generalize hthreads : (after kernel endOfPacket steps n).started = threads at hfair ht
  have hleaving : (after kernel endOfPacket steps n).Leaving threads :=
    ⟨⟨hstands n, (hstands n).requested hleft⟩, hleft, hthreads⟩
  have hown : ∀ (t : {t // t ∈ threads}) (s : Aesdsocket) e, s.Leaving threads → s.Regular e →
      (∃ m, e = .handler m ∧ m.thread = t) →
      s.Idle t ∨ ∃ u : {t // t ∈ threads}, (s.step e).ahead u < s.ahead u := by
    rintro ⟨_, ht⟩ s _ h he ⟨m, rfl, rfl⟩
    exact (h.handler ht he).imp_right fun hlower => ⟨⟨m.thread, ht⟩, hlower⟩
  obtain ⟨m, hm, hrest, hidle⟩ := comes_to_rest_from
    (fun (t : {t // t ∈ threads}) s => ahead t s) (fun (t : {t // t ∈ threads}) s => Idle t s)
    (fun _ _ h he => h.step he) (fun t _ _ h he => h.requested.ahead_le he t) hown hregular
    (fun t => hfair t t.2) hleaving
  -- Whoever held the mutex could be scheduled in vain, and would be in no section.
  have hfree : ∀ k ≥ m, (after kernel endOfPacket steps k).handlers.owner = none := by
    intro k hmk
    by_contra hheld
    obtain ⟨u, hu⟩ := Option.ne_none_iff_exists'.1 hheld
    have hholds := (hstands k).proceeds.owner u hu
    have hstarted : u ∈ threads := by
      by_contra hout
      rw [← hthreads, ← (left_after hregular (hm.trans hmk) hleft).2.1] at hout
      rw [(hstands k).unstarted u hout] at hholds
      exact absurd hholds (by decide)
    obtain ⟨k', hk', hvain⟩ := hidle ⟨u, hstarted⟩ k hmk
    have hsame : ((after kernel endOfPacket steps k').handlers.clients u).phase =
        ((after kernel endOfPacket steps k).handlers.clients u).phase :=
      phase_eq_of_ahead_eq ((hrest ⟨u, hstarted⟩ k' (hmk.trans hk')).trans
        (hrest ⟨u, hstarted⟩ k hmk).symm)
    rw [← hsame] at hholds
    exact hvain.not_holds hholds
  obtain ⟨k, hmk, hvain⟩ := hidle ⟨t, ht⟩ m (Nat.le_refl m)
  rcases hvain with hended | ⟨-, hheld⟩
  · exact ⟨k, hended⟩
  · exact absurd (hfree k hmk) hheld

/-- **`main` returns** when it has left its accept loop and the threads it has started end. -/
theorem exists_returned (hmain : ∀ n, ∃ k ≥ n, ∃ a, steps k = .main a) {n : ℕ}
    (hleft : (after kernel endOfPacket steps n).Left)
    (hends : ∀ t ∈ (after kernel endOfPacket steps n).started,
      ∃ k, (after kernel endOfPacket steps k).Ended t) :
    ∃ n, ∀ k ≥ n, (after kernel endOfPacket steps k).main = .returned := by
  have hstands := stands_after hk hregular
  obtain ⟨m, hm⟩ := exists_forall_mem
    (p := fun t k => (after kernel endOfPacket steps k).Ended t)
    (fun t k h => h.step (steps k)) _ hends
  obtain ⟨hleft', -, hlist⟩ := left_after hregular (le_max_left n m) hleft
  have hjoining : (after kernel endOfPacket steps (max n m)).Joining :=
    { stands := hstands _
      left := hleft'
      ended := fun node hnode t ht => by
        obtain ⟨u, hu, hdata⟩ := (hstands n).listed node (hlist hnode)
        obtain rfl : u = t := Option.some.inj (hdata.symm.trans ht)
        exact ended_after (le_max_right n m) (hm u hu) }
  have hown : ∀ (s : Aesdsocket) e, s.Joining → s.Regular e → (∃ a, e = .main a) →
      s.main = .returned ∨ (s.step e).toJoin < s.toJoin := by
    rintro s _ h he ⟨a, rfl⟩
    exact ((mainTurn_stepMain he).toJoin_le h).2
  obtain ⟨k, -, hreturned⟩ := comes_to_idle (fun e => ∃ a, e = .main a) toJoin
    (fun s => s.main = .returned) (fun _ _ h he => h.step he) (fun _ _ h he => h.toJoin_le he)
    hown hregular hmain hjoining
  exact ⟨k, fun k' hk' => stays (p := fun k => (after kernel endOfPacket steps k).main = .returned)
    (fun k h => returned_step h (steps k)) hk' hreturned⟩

omit hk in
/-- All threads that are ever started are those started by the time at which `main` leaves its
accept loop. -/
theorem mem_started_of_left {n k : ℕ} {t : Nat} (hleft : (after kernel endOfPacket steps n).Left)
    (ht : t ∈ (after kernel endOfPacket steps k).started) :
    t ∈ (after kernel endOfPacket steps n).started := by
  rcases Nat.le_total k n with hle | hle
  · exact started_after hregular hle ht
  · rwa [(left_after hregular hle hleft).2.1] at ht

end Endless

/-- **Shutdown.**  Whatever the system answers, as long as `pthread_create` never fails and
`main` goes on again and again: `main` returns for good exactly if a signal comes and every
thread that it starts ends; if each of these threads goes on again and again, too, it returns
exactly if a signal comes; and when it has returned, every thread has ended and nobody holds
`file_mutex`. -/
theorem main_returns_iff (garbage : Nat → Nat → UInt8) (history : List Call)
    (hreal : ∀ c ∈ history, c.sched.Realistic) (endOfPacket : Nat → Bool) (steps : ℕ → Step)
    (hregular : ∀ n, (after (runCalls garbage history) endOfPacket steps n).Regular (steps n))
    (hmain : ∀ n, ∃ k ≥ n, ∃ a, steps k = .main a) :
    let s := after (runCalls garbage history) endOfPacket steps
    ((∃ n, ∀ k ≥ n, (s k).main = .returned) ↔
      (∃ n, steps n = .signal) ∧ ∀ t, (∃ n, t ∈ (s n).started) → ∃ n, (s n).Ended t) ∧
    ((∀ t, (∃ n, t ∈ (s n).started) → ∀ n, ∃ k ≥ n, ∃ m, steps k = .handler m ∧ m.thread = t) →
      ((∃ n, ∀ k ≥ n, (s k).main = .returned) ↔ ∃ n, steps n = .signal)) ∧
    ∀ n, (s n).main = .returned →
      (s n).handlers.owner = none ∧ ∀ t ∈ (s n).started, (s n).Ended t := by
  intro s
  have hk := runCalls_sound garbage hreal
  have hstands : ∀ n, (s n).Stands := stands_after hk hregular
  have hsignal : (∃ n, ∀ k ≥ n, (s k).main = .returned) → ∃ n, steps n = .signal := by
    rintro ⟨n, hreturned⟩
    have hrequested := (hstands n).requested (.inr (hreturned n (Nat.le_refl n)))
    obtain ⟨k, -, hsignal⟩ := (requested_iff n).1 hrequested
    exact ⟨k, hsignal⟩
  refine ⟨⟨fun hreturns => ⟨hsignal hreturns, ?_⟩, ?_⟩, fun hfair => ⟨hsignal, ?_⟩, ?_⟩
  · rintro t ⟨k, ht⟩
    obtain ⟨n, hreturned⟩ := hreturns
    have hnow := hreturned n (Nat.le_refl n)
    have hstarted := mem_started_of_left hregular (.inr hnow) ht
    exact ⟨n, ((hstands n).at_return hnow).2 t hstarted⟩
  · rintro ⟨hrequest, hends⟩
    obtain ⟨n, hleft⟩ := exists_left hk hregular hmain hrequest
    exact exists_returned hk hregular hmain hleft fun t ht => hends t ⟨n, ht⟩
  · intro hrequest
    obtain ⟨n, hleft⟩ := exists_left hk hregular hmain hrequest
    have hends : ∀ t ∈ (s n).started, ∃ k, (s k).Ended t := fun t ht =>
      exists_ended hk hregular hleft (fun t ht => hfair t ⟨n, ht⟩) ht
    exact exists_returned hk hregular hmain hleft hends
  · exact fun n hreturned => (hstands n).at_return hreturned

/-- A client has closed its side without a newline, and its handler goes round; then a signal
comes. -/
def closedPeer : ℕ → Step
  | 0 | 1 => .main .calm
  | k + 2 =>
      if k < 8 then .handler (.calm (0, []))
      else if k = 8 then .signal
      else if k % 2 = 0 then .handler (.calm (0, []))
      else .main .calm

theorem main_returns_closedPeer :
    ∃ n, ∀ k ≥ n, (after (runCalls (fun _ _ => 0) []) (fun _ => false) closedPeer k).main =
      .returned := by
  have hcalm : ∀ s : Aesdsocket, s.Regular (.handler (.calm (0, []))) :=
    fun _ => Schedule.realistic_limited _ _
  have hstarts : ∀ s : Aesdsocket, s.Regular (.main .calm) :=
    fun _ _ _ _ _ _ _ => rfl
  have hregular : ∀ n, (after (runCalls (fun _ _ => 0) []) (fun _ => false) closedPeer n).Regular
      (closedPeer n) := by
    intro n
    match n with
    | 0 | 1 => exact hstarts _
    | k + 2 =>
        simp only [closedPeer]
        split
        · exact hcalm _
        · split
          · trivial
          · split
            · exact hcalm _
            · exact hstarts _
  have hmain : ∀ n, ∃ k ≥ n, ∃ a, closedPeer k = .main a := fun n => by
    refine ⟨2 * n + 9 + 2, by omega, .calm, ?_⟩
    simp only [closedPeer]
    rw [if_neg (by omega), if_neg (by omega), if_neg (by omega)]
  have hreturns := main_returns_iff (fun _ _ => 0) [] (by simp) (fun _ => false) closedPeer
    hregular hmain
  refine (hreturns.2.1 ?_).2 ⟨10, rfl⟩
  rintro t ⟨n, ht⟩ k
  have hleft : (after (runCalls (fun _ _ => 0) []) (fun _ => false) closedPeer 12).Left :=
    .inl (by decide +kernel)
  have hzero := mem_started_of_left hregular hleft ht
  obtain rfl : t = 0 := List.mem_singleton.1 hzero
  refine ⟨2 * k + 10 + 2, by omega, .calm (0, []), ?_, rfl⟩
  simp only [closedPeer]
  rw [if_neg (by omega), if_neg (by omega), if_pos (by omega)]

end Aesdsocket

end Aesd.Server
