import Dpn.Message
import Dpn.Outcome

/-!
# Histories of a message

The three views of a message after any sequence of `resize` and `reset`.  Both
kinds of call return in every state, so a history is a run without exceptions.
-/

namespace Dpn

namespace Message

/-- A call on a message, with the 64-bit arguments it is made with. -/
inductive Call where
  | resize (size offset : UInt64)
  | reset
  deriving DecidableEq, Repr

def step : Call → Message → Outcome Empty Message
  | .resize size offset, message =>
      .ok (message.resize size.toNat offset.toNat)
  | .reset, message => .ok message.reset

/-- The guard of `resize`, whose sum wraps. -/
def Accepts (message : Message) (size offset : UInt64) : Prop :=
  (size.toNat + offset.toNat) % sizeModulus ≤ message.capacity

theorem resize_of_accepts {message : Message} {size offset : UInt64}
    (haccepts : message.Accepts size offset) :
    message.resize size.toNat offset.toNat =
      { message with
        size := size.toNat
        offset := offset.toNat
        contentsSize := size.toNat } := by
  rw [resize, if_neg (not_lt.mpr haccepts)]

theorem resize_of_not_accepts {message : Message} {size offset : UInt64}
    (haccepts : ¬message.Accepts size offset) :
    message.resize size.toNat offset.toNat = message := by
  rw [resize, if_pos (not_le.mp haccepts)]

theorem step_state? (call : Call) (message : Message) :
    ∃ next, (step call message).state? = some next ∧
      next.capacity = message.capacity := by
  cases call with
  | resize size offset =>
      exact ⟨_, rfl, resize_capacity message size.toNat offset.toNat⟩
  | reset => exact ⟨_, rfl, rfl⟩

/-! ## The frame and the window -/

/-- The frame exposes `size()` bytes, and whatever the allocation holds, they
are the bytes at `buffer()`. -/
structure FrameIsWindow (message : Message) : Prop where
  length : message.frameBytes.length = message.size
  bytes : ∀ content : List UInt8, content.length = message.capacity →
    content.take message.contentsSize =
      (content.drop message.offset).take message.size

theorem FrameIsWindow.frameBytes_eq {message : Message}
    (h : message.FrameIsWindow) : message.frameBytes = message.visible :=
  h.bytes message.bytes message.bytes_length

theorem length_frameBytes (message : Message) :
    message.frameBytes.length = min message.contentsSize message.capacity := by
  rw [frameBytes, List.length_take, message.bytes_length]

theorem frameIsWindow_new (memory : List UInt8) :
    (new memory).FrameIsWindow where
  length := rfl
  bytes := fun _ _ => rfl

/-- Two windows of one size that show the same whatever the buffer holds start
at the same byte. -/
theorem take_eq_take_drop_iff {size offset capacity : ℕ}
    (hsize : size ≤ capacity) :
    (∀ content : List UInt8, content.length = capacity →
        content.take size = (content.drop offset).take size) ↔
      size = 0 ∨ offset = 0 := by
  constructor
  · intro hsame
    by_contra hdiffer
    push Not at hdiffer
    obtain ⟨hsizePos, hoffsetPos⟩ := hdiffer
    -- One byte that differs from all others shows where the window starts.
    let content : List UInt8 := 1 :: List.replicate (capacity - 1) 0
    have hlength : content.length = capacity := by
      simp only [content, List.length_cons, List.length_replicate]
      omega
    have hwindow := hsame content hlength
    obtain ⟨size, rfl⟩ := Nat.exists_eq_succ_of_ne_zero hsizePos
    obtain ⟨offset, rfl⟩ := Nat.exists_eq_succ_of_ne_zero hoffsetPos
    have hmem : (1 : UInt8) ∈
        ((List.replicate (capacity - 1) (0 : UInt8)).drop offset).take
          (size + 1) := by
      have hdrop : content.drop (offset + 1) =
          (List.replicate (capacity - 1) 0).drop offset := rfl
      rw [← hdrop, ← hwindow]
      simp [content]
    have htail := List.mem_of_mem_drop (List.mem_of_mem_take hmem)
    exact absurd (List.eq_of_mem_replicate htail) (by decide)
  · rintro (rfl | rfl) content -
    · rfl
    · rfl

/-- The calls after which the frame is still the window. -/
def KeepsWindow : Call → Message → Prop
  | .resize size offset, message =>
      message.Accepts size offset →
        size.toNat ≤ message.capacity ∧ (size = 0 ∨ offset = 0)
  | .reset, message => message.size = 0

theorem frameIsWindow_resize_iff {message : Message} {size offset : UInt64}
    (haccepts : message.Accepts size offset) :
    (message.resize size.toNat offset.toNat).FrameIsWindow ↔
      size.toNat ≤ message.capacity ∧ (size = 0 ∨ offset = 0) := by
  have hzero : ∀ word : UInt64, word.toNat = 0 ↔ word = 0 := by
    intro word
    rw [← UInt64.toNat_inj]
    rfl
  rw [resize_of_accepts haccepts]
  constructor
  · intro h
    have hsize := h.length
    rw [length_frameBytes] at hsize
    have hfits : size.toNat ≤ message.capacity := min_eq_left_iff.mp hsize
    refine ⟨hfits, ?_⟩
    rw [← hzero size, ← hzero offset]
    exact (take_eq_take_drop_iff hfits).mp h.bytes
  · rintro ⟨hfits, hstart⟩
    rw [← hzero size, ← hzero offset] at hstart
    refine ⟨?_, (take_eq_take_drop_iff hfits).mpr hstart⟩
    rw [length_frameBytes]
    exact min_eq_left hfits

theorem frameIsWindow_reset_iff {message : Message}
    (h : message.FrameIsWindow) :
    message.reset.FrameIsWindow ↔ message.size = 0 := by
  have hframe : message.reset.frameBytes = message.frameBytes := rfl
  constructor
  · intro hreset
    rw [← h.length, ← hframe, hreset.length]
    rfl
  · intro hsize
    refine ⟨by rw [hframe, h.length, hsize]; rfl, ?_⟩
    intro content hlength
    have hcontent := h.bytes content hlength
    rw [hsize, List.take_zero] at hcontent
    exact hcontent

theorem frameIsWindow_step_iff (call : Call) (message : Message)
    (h : message.FrameIsWindow) :
    (∃ next, (step call message).state? = some next ∧ next.FrameIsWindow) ↔
      KeepsWindow call message := by
  cases call with
  | resize size offset =>
      simp only [step, Outcome.state?_ok, Option.some.injEq, exists_eq_left',
        KeepsWindow]
      by_cases haccepts : message.Accepts size offset
      · rw [frameIsWindow_resize_iff haccepts]
        exact ⟨fun hkeeps _ => hkeeps, fun hkeeps => hkeeps haccepts⟩
      · rw [resize_of_not_accepts haccepts]
        exact ⟨fun _ hyes => absurd hyes haccepts, fun _ => h⟩
  | reset =>
      simp only [step, Outcome.state?_ok, Option.some.injEq, exists_eq_left',
        KeepsWindow]
      exact frameIsWindow_reset_iff h

/-- In every state of a history the frame is the window, if and only if every
accepted `resize` has offset 0 or size 0, and every `reset` finds size 0. -/
theorem history_frameIsWindow_iff (memory : List UInt8) (calls : List Call) :
    (∀ n, ∃ message, Outcome.run step (calls.take n) (new memory) =
        some message ∧ message.FrameIsWindow) ↔
      Outcome.RunMeets step KeepsWindow calls (new memory) :=
  Outcome.run_take_iff_meets frameIsWindow_step_iff (frameIsWindow_new memory)

/-- The window of one byte starts behind the frame; a `reset` leaves the frame
as it was. -/
theorem history_window_moves :
    (¬∀ n, ∃ message, Outcome.run step ([.resize 1 1].take n) (new [7, 8]) =
        some message ∧ message.FrameIsWindow) ∧
      ¬∀ n, ∃ message, Outcome.run step ([.resize 1 0, .reset].take n)
        (new [7, 8]) = some message ∧ message.FrameIsWindow := by
  constructor
  · intro hall
    obtain ⟨message, hrun, h⟩ := hall 1
    obtain rfl := Option.some.inj hrun
    exact absurd h.frameBytes_eq (by decide)
  · intro hall
    obtain ⟨message, hrun, h⟩ := hall 2
    obtain rfl := Option.some.inj hrun
    exact absurd h.length (by decide)

/-! ## The capacity -/

def InBounds (message : Message) : Prop :=
  message.size + message.offset ≤ message.capacity

/-- A `resize` beyond the capacity changes nothing. -/
def RefusesExcess : Call → Message → Prop
  | .resize size offset, message =>
      message.capacity < size.toNat + offset.toNat →
        message.resize size.toNat offset.toNat = message
  | .reset, _ => True

/-- A `resize` beyond the capacity is one beyond it after the sum has wrapped,
too. -/
def SumsExactly (capacity : ℕ) : Call → Prop
  | .resize size offset =>
      capacity < size.toNat + offset.toNat →
        capacity < (size.toNat + offset.toNat) % sizeModulus
  | .reset => True

theorem refusesExcess_iff {call : Call} {message : Message}
    (hbounds : message.InBounds) :
    RefusesExcess call message ↔ SumsExactly message.capacity call := by
  cases call with
  | reset => exact Iff.rfl
  | resize size offset =>
      refine forall_congr' fun hexcess => ?_
      constructor
      · intro hsame
        by_contra haccepts
        rw [resize_of_accepts (not_lt.mp haccepts)] at hsame
        have hsize : size.toNat = message.size := congrArg Message.size hsame
        have hoffset : offset.toNat = message.offset :=
          congrArg Message.offset hsame
        rw [InBounds, ← hsize, ← hoffset] at hbounds
        omega
      · intro hlarge
        exact resize_of_not_accepts (not_le.mpr hlarge)

theorem inBounds_step {call : Call} {message : Message}
    (hbounds : message.InBounds) (hsums : SumsExactly message.capacity call) :
    (step call message).Holds fun next =>
      next.InBounds ∧ next.capacity = message.capacity := by
  cases call with
  | reset => exact ⟨Nat.zero_le _, rfl⟩
  | resize size offset =>
      refine ⟨?_, resize_capacity message size.toNat offset.toNat⟩
      by_cases hexcess : message.capacity < size.toNat + offset.toNat
      · rw [resize_of_not_accepts (not_le.mpr (hsums hexcess))]
        exact hbounds
      · rw [resize_of_le (not_lt.mp hexcess)]
        exact not_lt.mp hexcess

/-- Every state of a history is in bounds, and every call on it refuses what
exceeds the capacity. -/
def NeverClaims (memory : List UInt8) (calls : List Call) : Prop :=
  ∀ n, ∃ message, Outcome.run step (calls.take n) (new memory) = some message ∧
    message.InBounds ∧ ∀ call, calls[n]? = some call → RefusesExcess call message

theorem run_capacity {calls : List Call} {first message : Message}
    (hrun : Outcome.run step calls first = some message) :
    message.capacity = first.capacity := by
  induction calls generalizing first with
  | nil =>
      obtain rfl := Option.some.inj hrun
      rfl
  | cons call calls ih =>
      obtain ⟨next, hnext, hcapacity⟩ := step_state? call first
      rw [Outcome.run_cons, hnext, Option.bind_some] at hrun
      exact (ih hrun).trans hcapacity

theorem exists_run (calls : List Call) (first : Message) :
    ∃ message, Outcome.run step calls first = some message := by
  induction calls generalizing first with
  | nil => exact ⟨first, rfl⟩
  | cons call calls ih =>
      obtain ⟨next, hnext, -⟩ := step_state? call first
      rw [Outcome.run_cons, hnext, Option.bind_some]
      exact ih next

/-- A message never claims bytes it does not have, if and only if every
`resize` beyond the capacity is still beyond it after its sum has wrapped. -/
theorem history_neverClaims_iff (memory : List UInt8) (calls : List Call) :
    NeverClaims memory calls ↔
      ∀ call ∈ calls, SumsExactly memory.length call := by
  constructor
  · intro hall call hcall
    obtain ⟨n, hn⟩ := List.mem_iff_getElem?.mp hcall
    obtain ⟨message, hrun, hbounds, hrefuses⟩ := hall n
    rw [← new_capacity memory, ← run_capacity hrun]
    exact (refusesExcess_iff hbounds).mp (hrefuses call hn)
  · intro hsums n
    obtain ⟨message, hrun⟩ := exists_run (calls.take n) (new memory)
    have hstep : ∀ call state,
        (InBounds state ∧ state.capacity = memory.length) →
        SumsExactly memory.length call →
        (step call state).Holds fun next =>
          next.InBounds ∧ next.capacity = memory.length := by
      rintro call state ⟨hbounds, hcapacity⟩ hsum
      rw [← hcapacity] at hsum
      exact (inBounds_step hbounds hsum).mono
        fun next hnext => ⟨hnext.1, hnext.2.trans hcapacity⟩
    have hstart : (new memory).InBounds ∧
        (new memory).capacity = memory.length :=
      ⟨Nat.zero_le _, rfl⟩
    have hmeets := @Outcome.runMeets_of_forall_mem _ _ _ step
      (SumsExactly memory.length) (calls.take n)
      (fun call hcall => hsums call (List.mem_of_mem_take hcall)) (new memory)
    have hinv := Outcome.run_invariant_of_meets hstep hstart hmeets hrun
    refine ⟨message, hrun, hinv.1, fun call hcall => ?_⟩
    apply (refusesExcess_iff hinv.1).mpr
    rw [hinv.2]
    exact hsums call (List.mem_of_getElem? hcall)

/-- A sum that wraps passes for a small one. -/
theorem history_claims_wrapped :
    ¬NeverClaims [7, 8] [.resize 0xFFFFFFFFFFFFFFFF 1] := by
  intro hall
  obtain ⟨message, hrun, hbounds, -⟩ := hall 1
  obtain rfl := Option.some.inj hrun
  have hclaims : 0xFFFFFFFFFFFFFFFF + 1 ≤ 2 := hbounds
  omega

end Message

end Dpn
