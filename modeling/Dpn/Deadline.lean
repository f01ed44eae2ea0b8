import Dpn.Request

/-!
# The deadline of a request

A request recomputes two durations after each package it drops, the time that
has passed and the time that is left.  Together they keep the deadline where it
was when the request started.
-/

namespace Dpn

/-! ## Waits with a fixed deadline -/

/-- The waits of a loop that goes on as long as its clock is not past the
deadline. -/
def waits (deadline : ℤ) (readings : List ℤ) : List ℤ :=
  (readings.takeWhile fun now => now ≤ deadline).map fun now => deadline - now

theorem waits_cons_of_le {deadline now : ℤ} (hnow : now ≤ deadline)
    (readings : List ℤ) :
    waits deadline (now :: readings) =
      (deadline - now) :: waits deadline readings := by
  simp [waits, hnow]

theorem waits_cons_of_lt {deadline now : ℤ} (hnow : deadline < now)
    (readings : List ℤ) : waits deadline (now :: readings) = [] := by
  simp [waits, hnow]

theorem getElem?_of_extends {β : Type*} {first second : List β}
    (hextends : first <+: second) {k : ℕ} {item : β}
    (hitem : first[k]? = some item) : second[k]? = some item := by
  obtain ⟨rest, rfl⟩ := hextends
  obtain ⟨hk, rfl⟩ := List.getElem?_eq_some_iff.mp hitem
  rw [List.getElem?_append_left hk, List.getElem?_eq_getElem hk]

theorem waits_getElem? {deadline wait : ℤ} {readings : List ℤ} {k : ℕ}
    (hwait : (waits deadline readings)[k]? = some wait) :
    ∃ now, readings[k]? = some now ∧ now ≤ deadline ∧ wait = deadline - now := by
  rw [waits, List.getElem?_map, Option.map_eq_some_iff] at hwait
  obtain ⟨now, hnow, rfl⟩ := hwait
  have hle := List.mem_takeWhile_imp (List.mem_of_getElem? hnow)
  exact ⟨now, getElem?_of_extends (List.takeWhile_prefix _) hnow,
    by simpa using hle, rfl⟩

/-- No wait follows a reading that is past the deadline. -/
theorem length_waits_le_of_past {deadline now : ℤ} {readings : List ℤ} {k : ℕ}
    (hnow : readings[k]? = some now) (hpast : deadline < now) :
    (waits deadline readings).length ≤ k := by
  by_contra hlong
  obtain ⟨wait, hwait⟩ : ∃ wait, (waits deadline readings)[k]? = some wait :=
    ⟨_, List.getElem?_eq_getElem (by omega)⟩
  obtain ⟨other, hother, hle, -⟩ := waits_getElem? hwait
  obtain rfl : now = other := Option.some.inj (hnow.symm.trans hother)
  omega

/-- A clock that advances with every reading bounds the number of waits. -/
theorem length_waits_le {deadline now : ℤ} {readings : List ℤ}
    (hadvance : (now :: readings).IsChain fun earlier later =>
      earlier + 1 ≤ later) (hnow : now ≤ deadline) :
    ((waits deadline (now :: readings)).length : ℤ) ≤ deadline - now + 1 := by
  induction readings generalizing now with
  | nil =>
      rw [waits_cons_of_le hnow]
      simp [waits, hnow]
  | cons next rest ih =>
      obtain ⟨hstep, hrest⟩ := List.isChain_cons_cons.mp hadvance
      rw [waits_cons_of_le hnow, List.length_cons]
      rcases lt_or_ge deadline next with hpast | hnext
      · rw [waits_cons_of_lt hpast]
        simp
        omega
      · have hlength := ih hrest hnext
        push_cast
        omega

namespace Peer

variable {ι : Type*} [DecidableEq ι]

/-! ## The timeouts of the polls -/

/-- The timeout of every poll that the loop makes, the last of which may still
be waiting. -/
def pollTimeouts (package : Package) (timeout startTime : ℤ) :
    List (Round ι) → ℤ → ℤ → World ι → List ℤ
  | [], currTimeout, elapsedTimeout, _ =>
      if timeout < elapsedTimeout then [] else [currTimeout]
  | round :: rounds, currTimeout, elapsedTimeout, world =>
      if timeout < elapsedTimeout then []
      else
        currTimeout ::
          match poll round.ready package (round.arrive world) with
          | .ok polled =>
              if polled.labelContents.messageID = polled.peer.messageID then []
              else pollTimeouts package timeout startTime rounds
                (timeout - (round.now - startTime)) (round.now - startTime)
                polled
          | .throw _ _ => []
          | .stuck _ => []

theorem polls_eq_pollTimeouts {package : Package}
    {timeout startTime currTimeout elapsedTimeout : ℤ}
    {rounds : List (Round ι)} {world : World ι} {requested : Requested ι}
    (hloop : requestLoop package timeout startTime rounds currTimeout
      elapsedTimeout world = .ok requested) :
    requested.polls = pollTimeouts package timeout startTime rounds currTimeout
      elapsedTimeout world := by
  induction rounds generalizing currTimeout elapsedTimeout world requested with
  | nil =>
      rw [requestLoop] at hloop
      split at hloop
      · rename_i hclock
        rw [pollTimeouts, if_pos hclock, ← Outcome.ok.inj hloop]
      · contradiction
  | cons round rounds ih =>
      rw [pollTimeouts]
      rcases requestLoop_cons_cases hloop with
        ⟨hclock, rfl⟩ | ⟨hclock, polled, ⟨error, hpoll, rfl⟩ |
          ⟨hpoll, ⟨hmatch, rfl⟩ | ⟨hother, result, hresult, rfl⟩⟩⟩
      · rw [if_pos hclock]
      · rw [if_neg hclock, hpoll]
      · rw [if_neg hclock, hpoll]
        simp only [hmatch, if_true]
      · rw [if_neg hclock, hpoll]
        simp only [hother, if_false, ih hresult]

/-- The loop invariant: the time left is the distance of the last reading from
the deadline, and the time passed lets no reading behind the deadline through. -/
theorem pollTimeouts_extend {package : Package}
    {timeout startTime currTimeout elapsedTimeout now : ℤ}
    {rounds : List (Round ι)} {world : World ι}
    (hcurr : currTimeout = startTime + timeout - now)
    (helapsed : elapsedTimeout ≤ timeout → now ≤ startTime + timeout) :
    pollTimeouts package timeout startTime rounds currTimeout elapsedTimeout
        world <+:
      waits (startTime + timeout) (now :: rounds.map Round.now) := by
  induction rounds generalizing currTimeout elapsedTimeout now world with
  | nil =>
      rw [pollTimeouts]
      split
      · exact List.nil_prefix
      · rename_i hclock
        rw [waits_cons_of_le (helapsed (not_lt.mp hclock)), hcurr]
        exact List.prefix_append _ _
  | cons round rounds ih =>
      rw [pollTimeouts]
      split
      · exact List.nil_prefix
      · rename_i hclock
        rw [waits_cons_of_le (helapsed (not_lt.mp hclock)), hcurr,
          List.prefix_cons_inj, List.map_cons]
        split
        · split
          · exact List.nil_prefix
          · exact ih (by omega) (by omega)
        · exact List.nil_prefix
        · exact List.nil_prefix

/-- If every poll comes back, the loop ends or its next poll is still waiting
behind all the rounds. -/
theorem requestLoop_ends {package : Package}
    {timeout startTime currTimeout elapsedTimeout : ℤ}
    {rounds : List (Round ι)} {world : World ι}
    (hback : ∀ ready state, (ready, state) ∈ pollStates package timeout
      startTime rounds elapsedTimeout world →
      ∀ reason, poll ready package state ≠ .stuck reason) :
    (∃ requested, requestLoop package timeout startTime rounds currTimeout
        elapsedTimeout world = .ok requested) ∨
      (pollTimeouts package timeout startTime rounds currTimeout elapsedTimeout
        world).length = rounds.length + 1 := by
  induction rounds generalizing currTimeout elapsedTimeout world with
  | nil =>
      rw [requestLoop, pollTimeouts]
      split
      · exact Or.inl ⟨_, rfl⟩
      · exact Or.inr rfl
  | cons round rounds ih =>
      rw [requestLoop, pollTimeouts]
      rw [pollStates] at hback
      by_cases hclock : timeout < elapsedTimeout
      · simp [hclock]
      simp only [hclock, if_false] at hback ⊢
      cases hpoll : poll round.ready package (round.arrive world) with
      | stuck reason =>
          exact absurd hpoll (hback _ _ List.mem_cons_self reason)
      | throw error polled => exact Or.inl ⟨_, rfl⟩
      | ok polled =>
          by_cases hmatch :
              polled.labelContents.messageID = polled.peer.messageID
          · simp [hmatch]
          simp only [hpoll, hmatch, if_false] at hback ⊢
          have hrest : ∀ ready state, (ready, state) ∈ pollStates package timeout
              startTime rounds (round.now - startTime) polled →
              ∀ reason, poll ready package state ≠ .stuck reason :=
            fun ready state hstate =>
              hback ready state (List.mem_cons_of_mem _ hstate)
          rcases @ih (timeout - (round.now - startTime)) _ _ hrest with
            ⟨requested, hrequested⟩ | hlength
          · rw [hrequested]
            exact Or.inl ⟨_, rfl⟩
          · rw [List.length_cons, hlength, List.length_cons]
            exact Or.inr rfl

/-! ## The deadline does not slide -/

/-- The first poll is given the whole timeout, each later one what is left of
it at the last reading, and none is made behind the deadline. -/
structure FixedDeadline (timeout startTime : ℤ) (readings polls : List ℤ) :
    Prop where
  first : polls[0]? = some timeout
  bounded : ∀ wait ∈ polls, 0 ≤ wait ∧ wait ≤ timeout
  remaining : ∀ k wait, polls[k + 1]? = some wait →
    ∃ now, readings[k]? = some now ∧ wait = startTime + timeout - now
  past : ∀ k now, readings[k]? = some now → startTime + timeout < now →
    polls.length ≤ k + 1
  counted : ((startTime :: readings).IsChain fun earlier later =>
      earlier + 1 ≤ later) →
    (polls.length : ℤ) ≤ timeout + 1

/-- Rounds that each take a millisecond at least use up the timeout, and the
loop ends if its polls come back. -/
def EndsInTime (package : Package) (timeout startTime : ℤ)
    (rounds : List (Round ι)) (world : World ι) : Prop :=
  ((startTime :: rounds.map Round.now).IsChain fun earlier later =>
      earlier + 1 ≤ later) →
  timeout < rounds.length →
  (∀ ready state, (ready, state) ∈ pollStates package timeout startTime rounds
      timeout world → ∀ reason, poll ready package state ≠ .stuck reason) →
  ∃ requested, requestImpl package timeout startTime rounds world =
    .ok requested

theorem fixedDeadline_of_extends {timeout startTime : ℤ}
    {readings polls : List ℤ} (htimeout : 0 ≤ timeout)
    (hclock : (startTime :: readings).Pairwise (· ≤ ·))
    (hfirst : polls[0]? = some timeout)
    (hextends : polls <+: waits (startTime + timeout) (startTime :: readings)) :
    FixedDeadline timeout startTime readings polls where
  first := hfirst
  bounded := by
    intro wait hwait
    obtain ⟨k, hk⟩ := List.mem_iff_getElem?.mp hwait
    obtain ⟨now, hnow, hle, rfl⟩ := waits_getElem? (getElem?_of_extends hextends hk)
    have hstart : startTime ≤ now := by
      rcases List.mem_cons.mp (List.mem_of_getElem? hnow) with rfl | hmem
      · exact le_refl _
      · exact List.rel_of_pairwise_cons hclock hmem
    omega
  remaining := by
    intro k wait hk
    obtain ⟨now, hnow, -, hwait⟩ :=
      waits_getElem? (getElem?_of_extends hextends hk)
    exact ⟨now, by simpa using hnow, hwait⟩
  past := by
    intro k now hnow hpast
    have hcons : (startTime :: readings)[k + 1]? = some now := by simpa using hnow
    exact hextends.length_le.trans (length_waits_le_of_past hcons hpast)
  counted := by
    intro hadvance
    have hlength := length_waits_le hadvance
      (show startTime ≤ startTime + timeout by omega)
    have hle := hextends.length_le
    omega

/-- The deadline of a request does not slide. -/
theorem requestImpl_fixedDeadline {package : Package} {timeout startTime : ℤ}
    {rounds : List (Round ι)} {world : World ι} (htimeout : 0 ≤ timeout)
    (hclock : (startTime :: rounds.map Round.now).Pairwise (· ≤ ·)) :
    FixedDeadline timeout startTime (rounds.map Round.now)
        (pollTimeouts package timeout startTime rounds timeout timeout world) ∧
      (∀ requested, requestImpl package timeout startTime rounds world =
          .ok requested →
        requested.polls = pollTimeouts package timeout startTime rounds timeout
          timeout world) ∧
      EndsInTime package timeout startTime rounds world := by
  have hextends : pollTimeouts package timeout startTime rounds timeout timeout
      world <+: waits (startTime + timeout)
        (startTime :: rounds.map Round.now) :=
    pollTimeouts_extend (by omega) (by omega)
  have hfirst : (pollTimeouts package timeout startTime rounds timeout timeout
      world)[0]? = some timeout := by
    cases rounds <;> rw [pollTimeouts, if_neg (lt_irrefl timeout)] <;> rfl
  have hfixed := fixedDeadline_of_extends htimeout hclock hfirst hextends
  refine ⟨hfixed, fun requested => polls_eq_pollTimeouts, ?_⟩
  intro hadvance hrounds hback
  rcases @requestLoop_ends ι _ package timeout startTime timeout _ _ _ hback
    with hends | hwaiting
  · exact hends
  · have hcounted := hfixed.counted hadvance
    rw [hwaiting] at hcounted
    omega

end Peer

/-! ## Two dropped packages -/

def droppedAt (now : ℤ) : Peer.Round Unit :=
  ⟨[(0, toWire (foreign 9))], portReady, now⟩

theorem requestImpl_fixedDeadline_two :
    Peer.pollTimeouts [0] 2 0 [droppedAt 1, droppedAt 3] 2 2 requesting.2 =
        [2, 1] ∧
      Peer.FixedDeadline 2 0 [1, 3] (Peer.pollTimeouts [0] 2 0
        [droppedAt 1, droppedAt 3] 2 2 requesting.2) ∧
      Peer.EndsInTime [0] 2 0 [droppedAt 1, droppedAt 3] requesting.2 := by
  have h := @Peer.requestImpl_fixedDeadline Unit _ [0] 2 0
    [droppedAt 1, droppedAt 3] requesting.2 (by decide) (by decide)
  exact ⟨by decide, h.1, h.2.2⟩

end Dpn
