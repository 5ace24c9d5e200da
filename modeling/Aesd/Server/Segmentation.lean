import Aesd.Server.EndToEnd

/-!
# How the network cuts a request

The handler looks for a newline after each `recv` and takes everything received so
far as its packet.  Two cuts of one stream are treated alike when they give the same
packet, or two packets that hold the same seek command, and only then.
-/

namespace Aesd.Server

open Aesd.Driver
open Aesd.Verified.Lines

/-! ## The packet of a cut -/

/-- A stream with a newline has a packet, and the packet begins the stream. -/
theorem exists_packetOf {received : List UInt8} {segments : List (List UInt8)}
    (hreceived : newline ∉ received) (hnl : newline ∈ segments.flatten) :
    ∃ packet, packetOf received segments = some packet ∧ newline ∈ packet ∧
      packet <+: received ++ segments.flatten := by
  induction segments generalizing received with
  | nil => cases hnl
  | cons segment segments ih =>
      rw [packetOf, List.flatten_cons, ← List.append_assoc]
      by_cases hfirst : newline ∈ received ++ segment
      · exact ⟨received ++ segment, if_pos hfirst, hfirst, List.prefix_append ..⟩
      · rw [if_neg hfirst]
        apply ih hfirst
        rw [List.flatten_cons, List.mem_append] at hnl
        rcases hnl with hnl | hnl
        · exact absurd (List.mem_append_right received hnl) hfirst
        · exact hnl

/-- A stream that ends with its only newline is the packet of each of its cuts. -/
theorem packetOf_line {line : List UInt8} {segments : List (List UInt8)}
    (hline : newline ∉ line) (hcut : segments.flatten = line ++ [newline]) :
    packetOf [] segments = some (line ++ [newline]) := by
  have hnl : newline ∈ segments.flatten := by
    rw [hcut]
    simp
  obtain ⟨packet, hpacket, hmem, hbegins⟩ := exists_packetOf List.not_mem_nil hnl
  rw [hcut, List.nil_append] at hbegins
  rcases List.prefix_concat_iff.1 hbegins with heq | hshort
  · rw [hpacket, heq]
  · exact absurd (hshort.subset hmem) hline

/-! ## Requests that are treated alike -/

/-- The same packet, or two packets with the same seek command. -/
def SameRequest (p q : List UInt8) : Prop :=
  p = q ∨ ∃ seekto, seekCommand p = some seekto ∧ seekCommand q = some seekto

theorem deviceAction_eq_iff {p q : List UInt8} :
    deviceAction p = deviceAction q ↔ SameRequest p q := by
  unfold deviceAction SameRequest
  constructor
  · intro h
    cases hp : seekCommand p <;> cases hq : seekCommand q <;> simp_all
  · rintro (rfl | ⟨seekto, hp, hq⟩)
    · rfl
    · rw [hp, hq]

theorem SameRequest.afterPacket_eq {p q : List UInt8} (h : SameRequest p q) (log : LineLog) :
    afterPacket log p = afterPacket log q := by
  unfold afterPacket
  rcases h with rfl | ⟨seekto, hp, hq⟩
  · rfl
  · rw [hp, hq]

/-! ## Two cuts of one stream -/

/-- **Two cuts.**  From the same device, the handler acts alike and answers alike on two
cuts of a stream exactly when their packets are the same request. -/
theorem cuts_treated_alike_iff (garbage : Nat → Nat → UInt8) (history : List Call)
    (hreal : ∀ c ∈ history, c.sched.Realistic) (cut₁ cut₂ : List (List UInt8))
    (hcut : cut₁.flatten = cut₂.flatten) (hnul : 0 ∉ cut₁.flatten)
    (hnl : newline ∈ cut₁.flatten) (env₁ env₂ : Env)
    (hsucceeds₁ : env₁.Succeeds ((log (runCalls garbage history)).pending.length +
      cut₁.flatten.length))
    (hsucceeds₂ : env₂.Succeeds ((log (runCalls garbage history)).pending.length +
      cut₁.flatten.length))
    (hrecv₁ : ∀ i (hi : i < cut₁.length), env₁.recv i = some cut₁[i])
    (hrecv₂ : ∀ i (hi : i < cut₂.length), env₂.recv i = some cut₂[i]) :
    ∃ enough, ∀ fuel ≥ enough, ∃ h₁ h₂,
      dataProcessing env₁ fuel (runCalls garbage history) false = some h₁ ∧
      dataProcessing env₂ fuel (runCalls garbage history) false = some h₂ ∧
      ((deviceActions h₁.events = deviceActions h₂.events ∧ h₁.accepted = h₂.accepted) ↔
        ∃ p q, packetOf [] cut₁ = some p ∧ packetOf [] cut₂ = some q ∧ SameRequest p q) := by
  have hsound := runCalls_sound garbage hreal
  generalize runCalls garbage history = k at *
  obtain ⟨p, hp, -, hpstream⟩ := exists_packetOf List.not_mem_nil hnl
  obtain ⟨q, hq, -, hqstream⟩ := exists_packetOf List.not_mem_nil (hcut ▸ hnl)
  rw [← hcut] at hqstream
  rw [List.nil_append] at hpstream hqstream
  have hplen := hpstream.length_le
  have hqlen := hqstream.length_le
  refine ⟨cut₁.length + cut₂.length + (afterPacket (log k) p).1.contents.length +
    (afterPacket (log k) q).1.contents.length + 2, ?_⟩
  intro fuel hfuel
  have hpnul : 0 ∉ p := fun h0 => hnul (hpstream.subset h0)
  have hqnul : 0 ∉ q := fun h0 => hnul (hqstream.subset h0)
  obtain ⟨h₁, hrun₁, -, haccepted₁, hactions₁⟩ := dataProcessing_spec hsucceeds₁ hsound hp hrecv₁
    hpnul (by omega) fuel (by omega)
  obtain ⟨h₂, hrun₂, -, haccepted₂, hactions₂⟩ := dataProcessing_spec hsucceeds₂ hsound hq hrecv₂
    hqnul (by omega) fuel (by omega)
  refine ⟨h₁, h₂, hrun₁, hrun₂, ?_⟩
  rw [hactions₁, hactions₂, haccepted₁, haccepted₂]
  constructor
  · rintro ⟨hactions, -⟩
    exact ⟨p, q, hp, hq, deviceAction_eq_iff.1 (List.cons.inj hactions).1⟩
  · rintro ⟨p', q', hp', hq', hsame⟩
    obtain rfl := Option.some.inj (hp.symm.trans hp')
    obtain rfl := Option.some.inj (hq.symm.trans hq')
    rw [deviceAction_eq_iff.2 hsame, hsame.afterPacket_eq]
    exact ⟨rfl, rfl⟩

/-- The line `ab`, whole and in two segments. -/
theorem cuts_treated_alike_line :
    ∃ fuel h₁ h₂,
      dataProcessing (.calm [[97, 98, 10]]) fuel (runCalls (fun _ _ => 0) []) false = some h₁ ∧
      dataProcessing (.calm [[97], [98, 10]]) fuel (runCalls (fun _ _ => 0) []) false =
        some h₂ ∧
      deviceActions h₁.events = deviceActions h₂.events ∧ h₁.accepted = h₂.accepted := by
  obtain ⟨enough, hall⟩ := cuts_treated_alike_iff (fun _ _ => 0) [] (by simp)
    [[97, 98, 10]] [[97], [98, 10]] rfl (by decide) (by decide) (.calm _) (.calm _)
    (Env.calm_succeeds _ (by decide +kernel)) (Env.calm_succeeds _ (by decide +kernel))
    (fun i hi => List.getElem?_eq_getElem hi) (fun i hi => List.getElem?_eq_getElem hi)
  obtain ⟨h₁, h₂, hrun₁, hrun₂, hiff⟩ := hall enough (Nat.le_refl _)
  exact ⟨enough, h₁, h₂, hrun₁, hrun₂, hiff.2 ⟨_, _, rfl, rfl, .inl rfl⟩⟩

/-- Two lines that arrive together are both written; when a segment ends between them,
the second is never received. -/
theorem cut_between_lines_loses_line :
    ¬∀ cut₁ cut₂ : List (List UInt8), cut₁.flatten = cut₂.flatten → 0 ∉ cut₁.flatten →
      newline ∈ cut₁.flatten → (∀ segment ∈ cut₁ ++ cut₂, segment ≠ [] ∧
        segment.length < bufferSize) →
      ∀ fuel h₁ h₂,
        dataProcessing (.calm cut₁) fuel (runCalls (fun _ _ => 0) []) false = some h₁ →
        dataProcessing (.calm cut₂) fuel (runCalls (fun _ _ => 0) []) false = some h₂ →
        deviceActions h₁.events = deviceActions h₂.events ∧ h₁.accepted = h₂.accepted := by
  intro hall
  obtain ⟨h₁, hrun₁⟩ := Option.isSome_iff_exists.1 (show (dataProcessing
    (.calm [[97, 10, 98, 10]]) 10 (runCalls (fun _ _ => 0) []) false).isSome by decide +kernel)
  obtain ⟨h₂, hrun₂⟩ := Option.isSome_iff_exists.1 (show (dataProcessing
    (.calm [[97, 10], [98, 10]]) 10 (runCalls (fun _ _ => 0) []) false).isSome by decide +kernel)
  have hsame := (hall [[97, 10, 98, 10]] [[97, 10], [98, 10]] rfl (by decide) (by decide)
    (by decide) 10 h₁ h₂ hrun₁ hrun₂).2
  have hsame' := congrArg some hsame
  rw [← Option.map_some, ← hrun₁, ← Option.map_some, ← hrun₂] at hsame'
  exact absurd hsame' (by decide +kernel)

end Aesd.Server
