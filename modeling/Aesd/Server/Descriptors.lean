import Aesd.Verified.Runs
import Mathlib.Logic.Function.Basic

/-!
# Who closes the listening socket

`main`, `setup_socket`, `client_handler` and `handle_signal_main` keep the number of
the listening socket in `_sockfd` and in `global_server_socket_fd`, and close it in
seven places.  The model runs the thread of `main` line by line, with any number of
signal handlers and with workers that open and close other descriptors in between.
`Process.Unclosed` says, from the lines reached alone, that nobody has closed the
socket yet; a close is sound exactly when it meets that condition.
-/

namespace Aesd.Server

open Aesd.Verified.Runs

/-! ## The process -/

/-- What an open descriptor number denotes. -/
inductive Descriptor
  | listening
  | other
  deriving DecidableEq

/-- The line the thread of `main` executes next. -/
inductive MainLine
  | initGlobal
  | socket
  | setsockopt
  | bind
  | listen
  | closeSetup
  | publish
  | closeFailed
  | testExit
  | accept
  | closeLoop
  | closeMain
  | joining
  deriving DecidableEq

/-- The line a signal handler executes next. -/
inductive HandlerLine
  | idle
  | test
  | close
  | reset
  deriving DecidableEq

/-- The process: its descriptor table, the two variables that hold the number of the
listening socket, the lines reached, and for each number closed through these variables
what it denoted. -/
structure Process (η : Type) where
  table : Nat → Option Descriptor
  sockfd : Int
  globalServerSocketFd : Int
  exitRequested : Bool
  main : MainLine
  handlers : η → HandlerLine
  closed : List (Int × Option Descriptor)

variable {η : Type}

namespace Process

/-- The process before line 91 of `main`; the numbers in `taken` are open already. -/
def start (taken : Nat → Bool) : Process η :=
  { table := fun n => if taken n then some .other else none
    sockfd := -1
    globalServerSocketFd := -1
    exitRequested := false
    main := .initGlobal
    handlers := fun _ => .idle
    closed := [] }

/-- What a number denotes. -/
def denotes (s : Process η) (fd : Int) : Option Descriptor :=
  if fd < 0 then none else s.table fd.toNat

/-- The system gives number `n` to a new object. -/
def assign (s : Process η) (n : Nat) (d : Descriptor) : Process η :=
  { s with table := Function.update s.table n (some d) }

/-- `close(2)` on one of the two variables. -/
def close (s : Process η) (fd : Int) : Process η :=
  { s with
    table := if fd < 0 then s.table else Function.update s.table fd.toNat none
    closed := s.closed ++ [(fd, s.denotes fd)] }

end Process

/-! ## Steps -/

/-- The steps of `main`, of the signal handlers and of the workers.  A step of `main`
that makes a call is told the number it gets or whether it succeeds. -/
inductive ProcessStep (η : Type)
  | main (fd : Option Nat) (ok : Bool)
  | signal (h : η)
  | handler (h : η)
  | workerOpen (n : Nat)
  | workerClose (n : Nat)

/-- One line of `main`, `client_handler` and `setup_socket`. -/
def Process.stepMain (s : Process η) (fd : Option Nat) (ok : Bool) : Process η :=
  match s.main with
  | .initGlobal => { s with globalServerSocketFd := s.sockfd, main := .socket }
  | .socket =>
      match fd with
      | none => { s with sockfd := -1, main := .closeFailed }
      | some n =>
          if s.table n = none then
            { s.assign n .listening with sockfd := n, main := .setsockopt }
          else s
  | .setsockopt => { s with main := if ok then .bind else .closeSetup }
  | .bind => { s with main := if ok then .listen else .closeSetup }
  | .listen => { s with main := if ok then .publish else .closeSetup }
  | .closeSetup => { s.close s.sockfd with main := .closeFailed }
  | .publish => { s with globalServerSocketFd := s.sockfd, main := .testExit }
  | .closeFailed => { s.close s.sockfd with main := .closeMain }
  | .testExit => { s with main := if s.exitRequested then .closeLoop else .accept }
  | .accept =>
      -- Whether `accept` fails or not, the loop goes back to its test.
      match fd with
      | none => { s with main := .testExit }
      | some n => if s.table n = none then { s.assign n .other with main := .testExit } else s
  | .closeLoop => { s.close s.sockfd with main := .closeMain }
  | .closeMain => { if 0 ≤ s.sockfd then s.close s.sockfd else s with main := .joining }
  | .joining => s

section Handlers

variable [DecidableEq η]

def Process.setHandler (s : Process η) (h : η) (line : HandlerLine) : Process η :=
  { s with handlers := Function.update s.handlers h line }

/-- One line of `handle_signal_main`, after the first. -/
def Process.stepHandler (s : Process η) (h : η) : Process η :=
  match s.handlers h with
  | .idle => s
  | .test => s.setHandler h (if 0 ≤ s.globalServerSocketFd then .close else .idle)
  | .close => (s.close s.globalServerSocketFd).setHandler h .reset
  | .reset => { s.setHandler h .idle with globalServerSocketFd := -1 }

/-- One step. -/
def Process.step (s : Process η) : ProcessStep η → Process η
  | .main fd ok => s.stepMain fd ok
  | .signal h =>
      if s.handlers h = .idle then { s.setHandler h .test with exitRequested := true } else s
  | .handler h => s.stepHandler h
  | .workerOpen n => if s.table n = none then s.assign n .other else s
  | .workerClose n =>
      if s.table n = some .other then { s with table := Function.update s.table n none } else s

def Process.run (s : Process η) (steps : List (ProcessStep η)) : Process η :=
  steps.foldl Process.step s

end Handlers

/-! ## When a close is sound -/

/-- The socket is not made yet. -/
def MainLine.BeforeSocket (line : MainLine) : Prop := line ∈ [MainLine.initGlobal, .socket]

/-- The socket is made, and `global_server_socket_fd` does not hold it yet. -/
def MainLine.InSetup (line : MainLine) : Prop :=
  line ∈ [MainLine.setsockopt, .bind, .listen, .closeSetup, .publish]

/-- The accept loop, up to and with line 385. -/
def MainLine.Serving (line : MainLine) : Prop :=
  line ∈ [MainLine.testExit, .accept, .closeLoop]

instance (line : MainLine) : Decidable line.BeforeSocket :=
  inferInstanceAs (Decidable (line ∈ [MainLine.initGlobal, .socket]))

instance (line : MainLine) : Decidable line.InSetup :=
  inferInstanceAs (Decidable
    (line ∈ [MainLine.setsockopt, .bind, .listen, .closeSetup, .publish]))

instance (line : MainLine) : Decidable line.Serving :=
  inferInstanceAs (Decidable (line ∈ [MainLine.testExit, .accept, .closeLoop]))

/-- Both lines are before the socket, or both in setup, or both in the loop. -/
def MainLine.SameStage (line line' : MainLine) : Prop :=
  (line.BeforeSocket ↔ line'.BeforeSocket) ∧ (line.InSetup ↔ line'.InSetup) ∧
    (line.Serving ↔ line'.Serving)

instance (line line' : MainLine) : Decidable (line.SameStage line') :=
  inferInstanceAs (Decidable (_ ∧ _ ∧ _))

/-- By the lines reached, the listening socket is open: setup has made it and not closed
it, or line 385 is still ahead and no handler has closed it. -/
def Process.Unclosed (s : Process η) : Prop :=
  s.main.InSetup ∨
    s.main.Serving ∧ 0 ≤ s.globalServerSocketFd ∧ ∀ h, s.handlers h ≠ .reset

/-- The step closes nothing, or the socket is unclosed: line 319 is not executed, line 99
not with a number to close, and of line 385 and the handlers only the first closes. -/
def Process.Guarded (s : Process η) : ProcessStep η → Prop
  | .main _ _ =>
      match s.main with
      | .closeFailed => False
      | .closeLoop => s.Unclosed
      | .closeMain => s.sockfd < 0
      | _ => True
  | .handler h =>
      s.handlers h = .close → s.Unclosed ∧ 0 ≤ s.globalServerSocketFd
  | _ => True

/-- Every close has hit the listening socket. -/
def Process.ClosesSound (s : Process η) : Prop := ∀ e ∈ s.closed, e.2 = some .listening

/-! ## The invariant -/

/-- What holds as long as every close was guarded. -/
structure Process.Inv (s : Process η) : Prop where
  table : ∀ n, s.table n = some .listening ↔ s.Unclosed ∧ s.sockfd = n
  nonneg : s.Unclosed → 0 ≤ s.sockfd
  global : 0 ≤ s.globalServerSocketFd → s.globalServerSocketFd = s.sockfd
  unmade : s.main.BeforeSocket → s.sockfd < 0
  unpublished : s.main.BeforeSocket ∨ s.main.InSetup →
    s.globalServerSocketFd < 0 ∧ ∀ h, s.handlers h ≠ .close ∧ s.handlers h ≠ .reset
  served : s.main = .closeMain → 0 ≤ s.sockfd
  unfinished : s.main ≠ .joining
  unclosed : s.main.BeforeSocket ∨ s.Unclosed → s.closed = []
  once : s.closed.length ≤ 1

namespace Process

variable {s : Process η}

theorem inv_start (taken : Nat → Bool) : (start taken : Process η).Inv :=
  { table := fun n => by
      simp only [start, Unclosed, MainLine.InSetup, MainLine.Serving]
      split <;> simp
    nonneg := by simp [start, Unclosed, MainLine.InSetup, MainLine.Serving]
    global := by simp [start]
    unmade := by simp [start]
    unpublished := by simp [start]
    served := by simp [start]
    unfinished := by simp [start]
    unclosed := fun _ => rfl
    once := Nat.zero_le _ }

/-- `_sockfd` denotes the listening socket exactly while it is unclosed. -/
theorem Inv.denotes_sockfd (h : s.Inv) :
    s.denotes s.sockfd = some .listening ↔ s.Unclosed := by
  unfold denotes
  constructor
  · intro hlistening
    split at hlistening
    · cases hlistening
    · exact ((h.table _).1 hlistening).1
  · intro hunclosed
    have hnonneg := h.nonneg hunclosed
    rw [if_neg (by omega)]
    exact (h.table _).2 ⟨hunclosed, (Int.toNat_of_nonneg hnonneg).symm⟩

/-- `global_server_socket_fd` does when it holds a number, besides. -/
theorem Inv.denotes_global (h : s.Inv) :
    s.denotes s.globalServerSocketFd = some .listening ↔
      s.Unclosed ∧ 0 ≤ s.globalServerSocketFd := by
  constructor
  · intro hlistening
    have hnonneg : 0 ≤ s.globalServerSocketFd := by
      by_contra hneg
      rw [denotes, if_pos (by omega)] at hlistening
      cases hlistening
    rw [h.global hnonneg] at hlistening
    exact ⟨h.denotes_sockfd.1 hlistening, hnonneg⟩
  · rintro ⟨hunclosed, hnonneg⟩
    rw [h.global hnonneg]
    exact h.denotes_sockfd.2 hunclosed

/-! ## The lines of `main` -/

theorem closesSound_close (fd : Int) :
    (s.close fd).ClosesSound ↔ s.ClosesSound ∧ s.denotes fd = some .listening := by
  simp only [ClosesSound, close, List.mem_append, List.mem_singleton]
  constructor
  · intro h
    constructor
    · intro e he
      exact h e (.inl he)
    · exact h _ (.inr rfl)
  · intro ⟨hold, hnew⟩ e he
    rcases he with he | rfl
    · exact hold e he
    · exact hnew

/-- From a sound state of the invariant, a step of `main` is sound exactly when it is
guarded. -/
theorem Inv.closesSound_stepMain_iff (h : s.Inv) (hsound : s.ClosesSound) (fd : Option Nat)
    (ok : Bool) : (s.stepMain fd ok).ClosesSound ↔ s.Guarded (.main fd ok) := by
  unfold stepMain Guarded
  cases hmain : s.main <;> simp only
  case closeSetup =>
    refine iff_of_true ((closesSound_close _).2 ⟨hsound, ?_⟩) trivial
    exact h.denotes_sockfd.2 (.inl (by simp [MainLine.InSetup, hmain]))
  case closeFailed =>
    apply iff_of_false
    · intro hnext
      have hunclosed := h.denotes_sockfd.1 ((closesSound_close _).1 hnext).2
      simp [Unclosed, MainLine.InSetup, MainLine.Serving, hmain] at hunclosed
    · exact id
  case closeLoop =>
    constructor
    · intro hnext
      exact h.denotes_sockfd.1 ((closesSound_close _).1 hnext).2
    · intro hunclosed
      exact (closesSound_close _).2 ⟨hsound, h.denotes_sockfd.2 hunclosed⟩
  case closeMain =>
    have hserved := h.served hmain
    rw [if_pos hserved]
    apply iff_of_false
    · intro hnext
      have hunclosed := h.denotes_sockfd.1 ((closesSound_close _).1 hnext).2
      simp [Unclosed, MainLine.InSetup, MainLine.Serving, hmain] at hunclosed
    · exact Int.not_lt.2 hserved
  -- The other lines close nothing.
  all_goals first
    | exact iff_of_true hsound trivial
    | split
      · exact iff_of_true hsound trivial
      · split <;> exact iff_of_true hsound trivial

theorem closed_prefix_stepMain (fd : Option Nat) (ok : Bool) :
    s.closed <+: (s.stepMain fd ok).closed := by
  unfold stepMain
  cases s.main <;> simp only
  case closeSetup => exact List.prefix_append ..
  case closeFailed => exact List.prefix_append ..
  case closeLoop => exact List.prefix_append ..
  case closeMain =>
    split
    · exact List.prefix_append ..
    · exact List.prefix_rfl
  all_goals first
    | exact List.prefix_rfl
    | split
      · exact List.prefix_rfl
      · split <;> exact List.prefix_rfl

/-- The other entries of the table do not matter. -/
theorem Inv.setTable (h : s.Inv) {table : Nat → Option Descriptor}
    (hsame : ∀ n, table n = some .listening ↔ s.table n = some .listening) :
    ({ s with table := table } : Process η).Inv :=
  { h with table := fun n => (hsame n).trans (h.table n) }

/-- A new object on a free number is not the listening socket. -/
theorem Inv.assign_other (h : s.Inv) {n : Nat} (hfree : s.table n = none) :
    (s.assign n .other).Inv := by
  refine h.setTable fun k => ?_
  by_cases hk : k = n
  · simp [hk, hfree]
  · rw [Function.update_of_ne hk]

/-- Closing the socket takes it out of the table. -/
theorem Inv.table_close (h : s.Inv) (hunclosed : s.Unclosed) (n : Nat) :
    (s.close s.sockfd).table n ≠ some .listening := by
  have hnonneg := h.nonneg hunclosed
  simp only [close, if_neg (by omega : ¬s.sockfd < 0)]
  by_cases hn : n = s.sockfd.toNat
  · simp [hn]
  · rw [Function.update_of_ne hn]
    intro hlistening
    have hsockfd := ((h.table n).1 hlistening).2
    omega

/-- `main` closes the socket and leaves setup or the loop. -/
theorem Inv.close_leave (h : s.Inv) (hunclosed : s.Unclosed) {line : MainLine}
    (hline : line = .closeFailed ∨ line = .closeMain) :
    ({ s.close s.sockfd with main := line } : Process η).Inv := by
  have hclosed := h.unclosed (.inr hunclosed)
  have hended : ¬line.BeforeSocket ∧ ¬line.InSetup ∧ ¬line.Serving ∧ line ≠ .joining := by
    rcases hline with rfl | rfl <;>
      simp [MainLine.BeforeSocket, MainLine.InSetup, MainLine.Serving]
  obtain ⟨hbefore, hsetup, hserving, hjoining⟩ := hended
  have hnext : ¬({ s.close s.sockfd with main := line } : Process η).Unclosed := by
    rintro (h | h)
    · exact hsetup h
    · exact hserving h.1
  exact
    { table := fun n => iff_of_false (h.table_close hunclosed n) fun hn => hnext hn.1
      nonneg := fun hn => absurd hn hnext
      global := h.global
      unmade := fun hline => absurd hline hbefore
      unpublished := fun hline => absurd hline (not_or.2 ⟨hbefore, hsetup⟩)
      served := fun _ => h.nonneg hunclosed
      unfinished := hjoining
      unclosed := fun hn => absurd hn (not_or.2 ⟨hbefore, hnext⟩)
      once := by simp [close, hclosed] }

/-- `main` moves on inside setup, or inside the loop. -/
theorem Inv.move (h : s.Inv) {line : MainLine} (hstage : line.SameStage s.main)
    (hline : line ≠ .closeMain ∧ line ≠ .joining) :
    ({ s with main := line } : Process η).Inv := by
  obtain ⟨hbefore, hsetup, hserving⟩ := hstage
  have hunclosed : ({ s with main := line } : Process η).Unclosed ↔ s.Unclosed :=
    or_congr hsetup (and_congr_left' hserving)
  exact
    { table := fun n => (h.table n).trans (and_congr_left' hunclosed.symm)
      nonneg := fun hn => h.nonneg (hunclosed.1 hn)
      global := h.global
      unmade := fun hn => h.unmade (hbefore.1 hn)
      unpublished := fun hn => h.unpublished (hn.imp hbefore.1 hsetup.1)
      served := fun hn => absurd hn hline.1
      unfinished := hline.2
      unclosed := fun hn => h.unclosed (hn.imp hbefore.1 hunclosed.1)
      once := h.once }

/-- Line 91, and `socket` without a descriptor: there is nothing to close yet. -/
theorem Inv.unmade_step (h : s.Inv) (hmain : s.main.BeforeSocket) {line : MainLine}
    {sockfd global : Int} (hsockfd : sockfd < 0) (hglobal : global < 0)
    (hline : line = .socket ∨ line = .closeFailed) :
    ({ s with main := line, sockfd := sockfd, globalServerSocketFd := global } :
      Process η).Inv := by
  have hfacts : ¬line.InSetup ∧ ¬line.Serving ∧ line ≠ .closeMain ∧ line ≠ .joining := by
    rcases hline with rfl | rfl <;> decide
  obtain ⟨hsetup, hserving, hcloseMain, hjoining⟩ := hfacts
  have hclosed := h.unclosed (.inl hmain)
  have hbefore : ¬s.Unclosed := fun hn => by
    have hnonneg := h.nonneg hn
    have hneg := h.unmade hmain
    omega
  have hafter : ¬({ s with main := line, sockfd := sockfd, globalServerSocketFd := global } :
      Process η).Unclosed := by
    rintro (hn | hn)
    · exact hsetup hn
    · exact hserving hn.1
  exact
    { table := fun n => (h.table n).trans
        (iff_of_false (fun hn => hbefore hn.1) fun hn => hafter hn.1)
      nonneg := fun hn => absurd hn hafter
      global := fun hn => absurd hglobal (Int.not_lt.2 hn)
      unmade := fun _ => hsockfd
      unpublished := fun _ => ⟨hglobal, (h.unpublished (.inl hmain)).2⟩
      served := fun hn => absurd hn hcloseMain
      unfinished := hjoining
      unclosed := fun _ => hclosed
      once := h.once }

/-- `socket` gives the listening socket a free number. -/
theorem Inv.make (h : s.Inv) (hmain : s.main = .socket) (n : Nat) :
    ({ s.assign n .listening with sockfd := n, main := .setsockopt } : Process η).Inv := by
  have hbefore : s.main.BeforeSocket := by
    rw [hmain]
    decide
  have hmade : ({ s.assign n .listening with sockfd := n, main := .setsockopt } :
      Process η).Unclosed := .inl (by simp [MainLine.InSetup])
  have hunpublished := h.unpublished (.inl hbefore)
  refine
    { table := fun k => ?_
      nonneg := fun _ => Int.natCast_nonneg n
      global := fun hn => absurd hunpublished.1 (Int.not_lt.2 hn)
      unmade := fun hn => absurd hn (by simp [MainLine.BeforeSocket])
      unpublished := fun _ => hunpublished
      served := nofun
      unfinished := nofun
      unclosed := fun _ => h.unclosed (.inl hbefore)
      once := h.once }
  rw [and_iff_right hmade]
  show Function.update s.table n (some .listening) k = some .listening ↔ (n : Int) = k
  by_cases hk : k = n
  · simp [hk]
  · rw [Function.update_of_ne hk]
    refine iff_of_false (fun hlistening => ?_) (by omega)
    have hnonneg := h.nonneg ((h.table k).1 hlistening).1
    have hneg := h.unmade hbefore
    omega

/-- The number of the socket is published. -/
theorem Inv.publish (h : s.Inv) (hmain : s.main = .publish) :
    ({ s with globalServerSocketFd := s.sockfd, main := .testExit } : Process η).Inv := by
  have hsetup : s.main.InSetup := by
    rw [hmain]
    decide
  have hunclosed : s.Unclosed := .inl hsetup
  have hnext : ({ s with globalServerSocketFd := s.sockfd, main := .testExit } :
      Process η).Unclosed :=
    .inr ⟨by simp [MainLine.Serving], h.nonneg hunclosed,
      fun t => ((h.unpublished (.inr hsetup)).2 t).2⟩
  exact
    { table := fun n => (h.table n).trans (and_congr_left' (iff_of_true hunclosed hnext))
      nonneg := fun _ => h.nonneg hunclosed
      global := fun _ => rfl
      unmade := fun hn => absurd hn (by simp [MainLine.BeforeSocket])
      unpublished := fun hn => absurd hn (by simp [MainLine.BeforeSocket, MainLine.InSetup])
      served := nofun
      unfinished := nofun
      unclosed := fun _ => h.unclosed (.inr hunclosed)
      once := h.once }

/-- **A guarded line of `main`.** -/
theorem Inv.stepMain (h : s.Inv) {fd : Option Nat} {ok : Bool}
    (hguard : s.Guarded (.main fd ok)) : (s.stepMain fd ok).Inv := by
  simp only [Guarded] at hguard
  unfold Process.stepMain
  cases hmain : s.main with
  | initGlobal =>
      have hbefore : s.main.BeforeSocket := by
        rw [hmain]
        decide
      exact h.unmade_step hbefore (h.unmade hbefore) (h.unmade hbefore) (.inl rfl)
  | socket =>
      have hbefore : s.main.BeforeSocket := by
        rw [hmain]
        decide
      cases fd with
      | none =>
          exact h.unmade_step hbefore (by omega) (h.unpublished (.inl hbefore)).1 (.inr rfl)
      | some n =>
          simp only
          split
          · exact h.make hmain n
          · exact h
  | setsockopt =>
      cases ok <;> exact h.move (by rw [hmain]; decide) (by decide)
  | bind =>
      cases ok <;> exact h.move (by rw [hmain]; decide) (by decide)
  | listen =>
      cases ok <;> exact h.move (by rw [hmain]; decide) (by decide)
  | closeSetup =>
      exact h.close_leave (.inl (by rw [hmain]; decide)) (.inl rfl)
  | publish => exact h.publish hmain
  | closeFailed => simp [hmain] at hguard
  | testExit =>
      simp only
      split <;> exact h.move (by rw [hmain]; decide) (by decide)
  | accept =>
      cases fd with
      | none =>
          exact h.move (by rw [hmain]; decide) (by decide)
      | some n =>
          simp only
          split
          · rename_i hfree
            exact (h.assign_other hfree).move (by rw [assign, hmain]; decide) (by decide)
          · exact h
  | closeLoop =>
      rw [hmain] at hguard
      exact h.close_leave hguard (.inr rfl)
  | closeMain =>
      rw [hmain] at hguard
      have hserved := h.served hmain
      simp only at hguard
      omega
  | joining => exact absurd hmain h.unfinished

/-! ## The signal handlers -/

variable [DecidableEq η]

/-- The same of the signal handlers. -/
theorem Inv.closesSound_stepHandler_iff (h : s.Inv) (hsound : s.ClosesSound) (t : η) :
    (s.stepHandler t).ClosesSound ↔ s.Guarded (.handler t) := by
  simp only [stepHandler, Guarded]
  cases hline : s.handlers t with
  | close =>
      simp only [true_imp_iff]
      constructor
      · intro hnext
        exact h.denotes_global.1 ((closesSound_close _).1 hnext).2
      · intro hunclosed
        exact (closesSound_close _).2 ⟨hsound, h.denotes_global.2 hunclosed⟩
  | idle => exact iff_of_true hsound nofun
  | test => exact iff_of_true hsound nofun
  | reset => exact iff_of_true hsound nofun

/-- A handler starts, tests, or goes away. -/
theorem Inv.setHandler (h : s.Inv) {t : η} {line : HandlerLine} (exit : Bool)
    (hold : s.handlers t ≠ .reset) (hnew : line ≠ .reset)
    (hclose : line = .close → 0 ≤ s.globalServerSocketFd) :
    ({ s.setHandler t line with exitRequested := exit } : Process η).Inv := by
  have hreset : ∀ u, Function.update s.handlers t line u = .reset ↔ s.handlers u = .reset := by
    intro u
    by_cases hu : u = t
    · rw [hu, Function.update_self]
      exact iff_of_false hnew hold
    · rw [Function.update_of_ne hu]
  have hunclosed : ({ s.setHandler t line with exitRequested := exit } :
      Process η).Unclosed ↔ s.Unclosed :=
    or_congr_right (and_congr_right' (and_congr_right'
      (forall_congr' fun u => not_congr (hreset u))))
  refine
    { table := fun n => (h.table n).trans (and_congr_left' hunclosed.symm)
      nonneg := fun hn => h.nonneg (hunclosed.1 hn)
      global := h.global
      unmade := h.unmade
      unpublished := fun hn => ⟨(h.unpublished hn).1, fun u => ⟨?_, ?_⟩⟩
      served := h.served
      unfinished := h.unfinished
      unclosed := fun hn => h.unclosed (hn.imp_right hunclosed.1)
      once := h.once }
  · show Function.update s.handlers t line u ≠ .close
    by_cases hu : u = t
    · rw [hu, Function.update_self]
      intro hline
      exact absurd (hclose hline) (Int.not_le.2 (h.unpublished hn).1)
    · rw [Function.update_of_ne hu]
      exact ((h.unpublished hn).2 u).1
  · exact fun hu => ((h.unpublished hn).2 u).2 ((hreset u).1 hu)

/-- A handler closes the socket. -/
theorem Inv.close_handler (h : s.Inv) {t : η} (hunclosed : s.Unclosed)
    (hglobal : 0 ≤ s.globalServerSocketFd) :
    ((s.close s.globalServerSocketFd).setHandler t .reset).Inv := by
  have hpublished : ¬(s.main.BeforeSocket ∨ s.main.InSetup) := fun hn =>
    absurd hglobal (Int.not_le.2 (h.unpublished hn).1)
  have hnext : ¬((s.close s.globalServerSocketFd).setHandler t .reset).Unclosed := by
    rintro (hn | ⟨-, -, hn⟩)
    · exact hpublished (.inr hn)
    · exact hn t (Function.update_self ..)
  have hclosed := h.unclosed (.inr hunclosed)
  exact
    { table := fun n => by
        refine iff_of_false ?_ fun hn => hnext hn.1
        show (s.close s.globalServerSocketFd).table n ≠ some .listening
        rw [h.global hglobal]
        exact h.table_close hunclosed n
      nonneg := fun hn => absurd hn hnext
      global := h.global
      unmade := h.unmade
      unpublished := fun hn => absurd hn hpublished
      served := h.served
      unfinished := h.unfinished
      unclosed := fun hn => absurd hn (not_or.2 ⟨fun hn => hpublished (.inl hn), hnext⟩)
      once := by simp [close, Process.setHandler, hclosed] }

/-- A handler that has closed the socket forgets its number. -/
theorem Inv.reset_handler (h : s.Inv) {t : η} (hline : s.handlers t = .reset) :
    ({ s.setHandler t .idle with globalServerSocketFd := -1 } : Process η).Inv := by
  have hpublished : ¬(s.main.BeforeSocket ∨ s.main.InSetup) := fun hn =>
    ((h.unpublished hn).2 t).2 hline
  have hbefore : ¬s.Unclosed := by
    rintro (hn | ⟨-, -, hn⟩)
    · exact hpublished (.inr hn)
    · exact hn t hline
  have hafter : ¬({ s.setHandler t .idle with globalServerSocketFd := -1 } :
      Process η).Unclosed := by
    rintro (hn | ⟨-, hn, -⟩)
    · exact hpublished (.inr hn)
    · exact absurd hn (by simp)
  exact
    { table := fun n => (h.table n).trans
        (iff_of_false (fun hn => hbefore hn.1) fun hn => hafter hn.1)
      nonneg := fun hn => absurd hn hafter
      global := fun hn => absurd hn (by simp)
      unmade := h.unmade
      unpublished := fun hn => absurd hn hpublished
      served := h.served
      unfinished := h.unfinished
      unclosed := fun hn => absurd hn (not_or.2 ⟨fun hn => hpublished (.inl hn), hafter⟩)
      once := h.once }

/-- **A guarded line of a handler.** -/
theorem Inv.stepHandler (h : s.Inv) {t : η} (hguard : s.Guarded (.handler t)) :
    (s.stepHandler t).Inv := by
  simp only [Guarded] at hguard
  unfold Process.stepHandler
  cases hline : s.handlers t with
  | idle => exact h
  | test =>
      refine h.setHandler s.exitRequested (by simp [hline]) ?_ ?_
      · split <;> simp
      · intro hclose
        by_contra hglobal
        rw [if_neg hglobal] at hclose
        cases hclose
  | close =>
      obtain ⟨hunclosed, hglobal⟩ := hguard hline
      exact h.close_handler hunclosed hglobal
  | reset => exact h.reset_handler hline

/-! ## All steps -/

theorem Inv.closesSound_step_iff (h : s.Inv) (hsound : s.ClosesSound) (step : ProcessStep η) :
    (s.step step).ClosesSound ↔ s.Guarded step := by
  cases step with
  | main fd ok => exact h.closesSound_stepMain_iff hsound fd ok
  | handler t => exact h.closesSound_stepHandler_iff hsound t
  | signal t =>
      simp only [Process.step]
      split <;> exact iff_of_true hsound trivial
  | workerOpen n =>
      simp only [Process.step]
      split <;> exact iff_of_true hsound trivial
  | workerClose n =>
      simp only [Process.step]
      split <;> exact iff_of_true hsound trivial

/-- A close is not forgotten. -/
theorem closed_prefix_step (step : ProcessStep η) : s.closed <+: (s.step step).closed := by
  cases step with
  | main fd ok => exact closed_prefix_stepMain fd ok
  | handler t =>
      simp only [Process.step, stepHandler]
      cases s.handlers t with
      | close => exact List.prefix_append ..
      | idle => exact List.prefix_rfl
      | test => exact List.prefix_rfl
      | reset => exact List.prefix_rfl
  | signal t =>
      simp only [Process.step]
      split <;> exact List.prefix_rfl
  | workerOpen n =>
      simp only [Process.step]
      split <;> exact List.prefix_rfl
  | workerClose n =>
      simp only [Process.step]
      split <;> exact List.prefix_rfl

/-- **A guarded step** keeps the invariant. -/
theorem Inv.step (h : s.Inv) {step : ProcessStep η} (hguard : s.Guarded step) :
    (s.step step).Inv := by
  cases step with
  | main fd ok => exact h.stepMain hguard
  | handler t => exact h.stepHandler hguard
  | signal t =>
      simp only [Process.step]
      split
      · rename_i hidle
        exact h.setHandler true (by simp [hidle]) (by simp) (by simp)
      · exact h
  | workerOpen n =>
      simp only [Process.step]
      split
      · rename_i hfree
        exact h.assign_other hfree
      · exact h
  | workerClose n =>
      simp only [Process.step]
      split
      · rename_i hother
        refine h.setTable fun k => ?_
        by_cases hk : k = n
        · simp [hk, hother]
        · rw [Function.update_of_ne hk]
      · exact h

end Process

/-! ## Runs -/

variable [DecidableEq η]

/-- In a run, the closes are sound exactly when every step is guarded. -/
theorem Process.closesSound_run_iff (taken : Nat → Bool) (steps : List (ProcessStep η)) :
    ((Process.start taken).run steps).ClosesSound ↔
      Along Process.step Process.Guarded (Process.start taken) steps :=
  along_iff_of_lasting (fun _ _ h hguard => h.step hguard)
    (fun _ i h hsound => h.closesSound_step_iff hsound i)
    (fun _ i hnext e he => hnext e ((Process.closed_prefix_step i).subset he))
    (Process.inv_start taken) (by simp [Process.ClosesSound, Process.start])

theorem Process.inv_run {taken : Nat → Bool} {steps : List (ProcessStep η)}
    (hsound : ((Process.start taken).run steps).ClosesSound) :
    ((Process.start taken).run steps).Inv :=
  invariant (fun _ _ h hguard => h.step hguard) (Process.inv_start taken)
    ((Process.closesSound_run_iff taken steps).1 hsound)

/-- **Who closes the listening socket.**  In a run, every close of `_sockfd` and of
`global_server_socket_fd` hits the listening socket exactly when every step is guarded;
and then at most one such close is made. -/
theorem closes_sound_iff (taken : Nat → Bool) (steps : List (ProcessStep η)) :
    (((Process.start taken).run steps).ClosesSound ↔
      Along Process.step Process.Guarded (Process.start taken) steps) ∧
    (((Process.start taken).run steps).ClosesSound →
      ((Process.start taken).run steps).closed.length ≤ 1) := by
  constructor
  · exact Process.closesSound_run_iff taken steps
  · exact fun hsound => (Process.inv_run hsound).once

/-- A worker gets the number that the handler has closed, and line 385 closes it again. -/
theorem close_hits_worker :
    ¬∀ steps : List (ProcessStep Unit),
      ((Process.start fun n => n < 3).run steps).ClosesSound := by
  intro hall
  have hsound := hall [.main none true, .main (some 3) true, .main none true, .main none true,
    .main none true, .main none true, .main none true, .signal (), .handler (), .handler (),
    .handler (), .workerOpen 3, .main none true, .main none true, .main none true]
  exact absurd (hsound (3, some .other)) (by decide +kernel)

/-- No run of `main` that comes to its join loop is sound: whatever happened before, line
319, line 385 or line 99 has closed a number that did not denote the socket any more. -/
theorem finished_run_not_sound (taken : Nat → Bool) (steps : List (ProcessStep η))
    (hfinished : ((Process.start taken).run steps).main = .joining) :
    ¬((Process.start taken).run steps).ClosesSound := by
  intro hsound
  exact (Process.inv_run hsound).unfinished hfinished

end Aesd.Server
