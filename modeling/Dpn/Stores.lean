import Dpn.Storage

/-!
# The stores of a receive call

A call on a vector of messages stores frame by frame, and a message may stand in
the vector more than once.  This file lists what is stored in one message, and
says what the list makes of it: its bytes, its size, and what it shows.
-/

namespace Dpn

open ByteBuffer

/-! ## Stores -/

/-- A frame stored in a message: the copy, and the size the message has
afterwards. -/
structure Store where
  start : ℕ
  bytes : List UInt8
  size : ℕ
  deriving DecidableEq, Repr

def overwriteAll (stores : List Store) (bytes : List UInt8) : List UInt8 :=
  stores.foldl (fun bytes store => overwrite bytes store.start store.bytes) bytes

/-- What a list of stores makes of a message. -/
structure Leaves (stores : List Store) (message after : Message) : Prop where
  bytes : after.bytes = overwriteAll stores message.bytes
  untouched : stores = [] →
    after.size = message.size ∧ after.offset = message.offset
  last : ∀ store, stores.getLast? = some store →
    after.size = store.size ∧ after.offset = 0

theorem Leaves.refl (message : Message) : Leaves [] message message :=
  ⟨rfl, fun _ => ⟨rfl, rfl⟩, by simp⟩

theorem Leaves.trans {first second : List Store}
    {message middle after : Message} (hfirst : Leaves first message middle)
    (hsecond : Leaves second middle after) :
    Leaves (first ++ second) message after := by
  constructor
  · rw [hsecond.bytes, hfirst.bytes, overwriteAll, overwriteAll, overwriteAll,
      List.foldl_append]
  · intro hnil
    obtain ⟨hfirstNil, hsecondNil⟩ := List.append_eq_nil_iff.mp hnil
    obtain ⟨hsize, hoffset⟩ := hfirst.untouched hfirstNil
    obtain ⟨hsame, hsameOffset⟩ := hsecond.untouched hsecondNil
    exact ⟨hsame.trans hsize, hsameOffset.trans hoffset⟩
  · intro store hstore
    rw [List.getLast?_append] at hstore
    cases hlast : second.getLast? with
    | some other =>
        rw [hlast, Option.some_or] at hstore
        exact hsecond.last store (hlast.trans hstore)
    -- Nothing is stored any more after the first list.
    | none =>
        rw [hlast, Option.none_or] at hstore
        obtain ⟨hsame, hsameOffset⟩ :=
          hsecond.untouched (List.getLast?_eq_none_iff.mp hlast)
        obtain ⟨hsize, hoffset⟩ := hfirst.last store hstore
        exact ⟨hsame.trans hsize, hsameOffset.trans hoffset⟩

/-- The size, the offset and the bytes; what the frame exposes is left out. -/
structure Message.Same (first second : Message) : Prop where
  size : first.size = second.size
  offset : first.offset = second.offset
  bytes : first.bytes = second.bytes

theorem Message.Same.refl (message : Message) : message.Same message :=
  ⟨rfl, rfl, rfl⟩

theorem Leaves.of_same {stores : List Store} {message other after : Message}
    (h : Leaves stores message after) (hsame : message.Same other) :
    Leaves stores other after where
  bytes := by rw [h.bytes, hsame.bytes]
  untouched := fun hnil =>
    ⟨(h.untouched hnil).1.trans hsame.size,
      (h.untouched hnil).2.trans hsame.offset⟩
  last := h.last

/-- What is stored was there already. -/
structure Restores (stores : List Store) (message : Message) : Prop where
  offset : message.offset = 0
  size : stores.getLast?.map Store.size = some message.size
  bytes : overwriteAll stores message.bytes = message.bytes

theorem Leaves.same_iff {stores : List Store} {message after : Message}
    (h : Leaves stores message after) :
    after.Same message ↔ stores = [] ∨ Restores stores message := by
  constructor
  · intro hsame
    cases hlast : stores.getLast? with
    | none => exact Or.inl (List.getLast?_eq_none_iff.mp hlast)
    | some store =>
        obtain ⟨hsize, hoffset⟩ := h.last store hlast
        refine Or.inr ⟨hsame.offset.symm.trans hoffset, ?_, ?_⟩
        · rw [hlast, Option.map_some, ← hsize, hsame.size]
        · rw [← h.bytes, hsame.bytes]
  · rintro (hnil | hrestores)
    · obtain ⟨hsize, hoffset⟩ := h.untouched hnil
      refine ⟨hsize, hoffset, ?_⟩
      rw [h.bytes, hnil]
      rfl
    · obtain ⟨store, hlast, hstore⟩ :=
        Option.map_eq_some_iff.mp hrestores.size
      obtain ⟨hafter, hzero⟩ := h.last store hlast
      exact ⟨hafter.trans hstore, hzero.trans hrestores.offset.symm,
        h.bytes.trans hrestores.bytes⟩

/-- The frame of a message exposes all of it after a store. -/
structure Exposes (stores : List Store) (message after : Message) : Prop where
  untouched : stores = [] → after = message
  stored : stores ≠ [] → after.contentsSize = after.size

theorem Exposes.refl (message : Message) : Exposes [] message message :=
  ⟨fun _ => rfl, by simp⟩

theorem Exposes.trans {first second : List Store}
    {message middle after : Message} (hfirst : Exposes first message middle)
    (hsecond : Exposes second middle after) :
    Exposes (first ++ second) message after := by
  constructor
  · intro hnil
    obtain ⟨hfirstNil, hsecondNil⟩ := List.append_eq_nil_iff.mp hnil
    rw [hsecond.untouched hsecondNil, hfirst.untouched hfirstNil]
  · intro hstores
    by_cases hnil : second = []
    · rw [hsecond.untouched hnil]
      apply hfirst.stored
      rintro rfl
      exact hstores (by rw [hnil]; rfl)
    · exact hsecond.stored hnil

/-- What a message shows after the stores: what it showed before, if there are
none, and otherwise what they leave at the start of its allocation. -/
def Message.shownAfter (stores : List Store) (message : Message) :
    ℕ × List UInt8 :=
  match stores.getLast? with
  | none => (message.size, message.visible)
  | some last => (last.size, (overwriteAll stores message.bytes).take last.size)

theorem Leaves.shown {stores : List Store} {message after : Message}
    (h : Leaves stores message after) :
    (after.size, after.visible) = message.shownAfter stores := by
  unfold Message.shownAfter
  cases hlast : stores.getLast? with
  | none =>
      have hnil := List.getLast?_eq_none_iff.mp hlast
      obtain ⟨hsize, hoffset⟩ := h.untouched hnil
      have hbytes : after.bytes = message.bytes := by
        rw [h.bytes, hnil]
        rfl
      simp only [Message.visible, hsize, hoffset, hbytes]
  | some last =>
      obtain ⟨hsize, hoffset⟩ := h.last last hlast
      simp only [Message.visible, hsize, hoffset, h.bytes, List.drop_zero]

/-! ## The stores of a receive call -/

section Receive

variable {α : Type*} [DecidableEq α]

def storeOf (message : α) (bufferOffset : ℕ) (frame : FrameData α)
    (heap : Heap α) : Store where
  start := (heap message).offset + bufferOffset
  bytes := (frame.bytes heap).take (cpySize frame (heap message))
  size := bufferOffset + cpySize frame (heap message)

/-- The stores of one round, as far as they go into the target. -/
def roundStores (target message : α) (bufferOffset : ℕ) (frame : FrameData α)
    (heap : Heap α) : List Store :=
  if message = target then [storeOf message bufferOffset frame heap] else []

def appendStores (target message : α) :
    List (FrameData α) → ℕ → Heap α → List Store
  | [], _, _ => []
  | frame :: rest, bufferOffset, heap =>
      match storeFrame message bufferOffset frame heap with
      | none => []
      | some next =>
          roundStores target message bufferOffset frame heap ++
            appendStores target message rest
              (bufferOffset + cpySize frame (heap message)) next

/-- What `distribute` stores in the target. -/
def storesInto (target : α) :
    List α → List (FrameData α) → Heap α → List Store
  | _, [], _ => []
  | [], _ :: _, _ => []
  | [message], frames, heap => appendStores target message frames 0 heap
  | message :: next :: messages, frame :: frames, heap =>
      match storeFrame message 0 frame heap with
      | none => []
      | some stored =>
          roundStores target message 0 frame heap ++
            storesInto target (next :: messages) frames stored

@[simp] theorem storesInto_singleton (target message : α)
    (frames : List (FrameData α)) (heap : Heap α) :
    storesInto target [message] frames heap =
      appendStores target message frames 0 heap := by
  cases frames <;> rfl

theorem leaves_of_storeFrame {target message : α} {bufferOffset : ℕ}
    {frame : FrameData α} {heap next : Heap α}
    (hstore : storeFrame message bufferOffset frame heap = some next) :
    Leaves (roundStores target message bufferOffset frame heap) (heap target)
      (next target) := by
  have h := stored_of_storeFrame hstore
  by_cases heq : message = target
  · subst target
    rw [roundStores, if_pos rfl]
    refine ⟨h.bytes, by simp, ?_⟩
    intro store hlast
    obtain rfl := Option.some.inj hlast
    exact ⟨h.size, h.offset⟩
  · rw [roundStores, if_neg heq, h.others target (Ne.symm heq)]
    exact .refl _

theorem exposes_of_storeFrame {target message : α} {bufferOffset : ℕ}
    {frame : FrameData α} {heap next : Heap α}
    (hstore : storeFrame message bufferOffset frame heap = some next) :
    Exposes (roundStores target message bufferOffset frame heap) (heap target)
      (next target) := by
  have h := stored_of_storeFrame hstore
  by_cases heq : message = target
  · subst target
    rw [roundStores, if_pos rfl]
    exact ⟨by simp, fun _ => h.contentsSize.trans h.size.symm⟩
  · rw [roundStores, if_neg heq, h.others target (Ne.symm heq)]
    exact .refl _

/-- A relation that one round keeps, and that composes along the list of
stores. -/
structure AlongStores (rel : List Store → Message → Message → Prop) (target : α) :
    Prop where
  refl : ∀ message, rel [] message message
  trans : ∀ {first second message middle after}, rel first message middle →
    rel second middle after → rel (first ++ second) message after
  round : ∀ {message bufferOffset frame} {heap next : Heap α},
    storeFrame message bufferOffset frame heap = some next →
      rel (roundStores target message bufferOffset frame heap) (heap target)
        (next target)

theorem AlongStores.of_appendFrames
    {rel : List Store → Message → Message → Prop} {target message : α}
    (h : AlongStores rel target) {frames : List (FrameData α)}
    {bufferOffset : ℕ} {heap final : Heap α}
    (hfinal : appendFrames message frames bufferOffset heap = .ok final) :
    rel (appendStores target message frames bufferOffset heap) (heap target)
      (final target) := by
  induction frames generalizing bufferOffset heap with
  | nil =>
      obtain rfl := Outcome.ok.inj hfinal
      exact h.refl _
  | cons frame rest ih =>
      rw [appendFrames] at hfinal
      rw [appendStores]
      cases hstore : storeFrame message bufferOffset frame heap with
      | none => simp [hstore] at hfinal
      | some next =>
          simp only [hstore] at hfinal
          exact h.trans (h.round hstore) (ih hfinal)

theorem AlongStores.of_distribute
    {rel : List Store → Message → Message → Prop} {target : α}
    (h : AlongStores rel target) {messages : List α}
    {frames : List (FrameData α)} {heap final : Heap α}
    (hfinal : distribute messages frames heap = .ok final) :
    rel (storesInto target messages frames heap) (heap target)
      (final target) := by
  induction messages generalizing frames heap with
  | nil =>
      cases frames with
      | nil =>
          obtain rfl := Outcome.ok.inj hfinal
          exact h.refl _
      | cons frame frames => contradiction
  | cons message rest ih =>
      cases frames with
      | nil =>
          rw [distribute_nil] at hfinal
          obtain rfl := Outcome.ok.inj hfinal
          rw [storesInto]
          exact h.refl _
      | cons frame frames =>
          cases rest with
          | nil =>
              rw [distribute_singleton] at hfinal
              exact h.of_appendFrames hfinal
          | cons next rest =>
              rw [distribute] at hfinal
              rw [storesInto]
              cases hstore : storeFrame message 0 frame heap with
              | none => simp [hstore] at hfinal
              | some stored =>
                  simp only [hstore] at hfinal
                  exact h.trans (h.round hstore) (ih hfinal)

theorem leaves_of_distribute {target : α} {messages : List α}
    {frames : List (FrameData α)} {heap final : Heap α}
    (hfinal : distribute messages frames heap = .ok final) :
    Leaves (storesInto target messages frames heap) (heap target)
      (final target) :=
  AlongStores.of_distribute ⟨.refl, .trans, leaves_of_storeFrame⟩ hfinal

theorem exposes_of_distribute {target : α} {messages : List α}
    {frames : List (FrameData α)} {heap final : Heap α}
    (hfinal : distribute messages frames heap = .ok final) :
    Exposes (storesInto target messages frames heap) (heap target)
      (final target) :=
  AlongStores.of_distribute ⟨.refl, .trans, exposes_of_storeFrame⟩ hfinal

/-- A message is as before if and only if nothing is stored in it, or it held
already what is stored and its frame exposed all of it. -/
theorem eq_iff_of_distribute {messages : List α} {frames : List (FrameData α)}
    {heap final : Heap α}
    (hfinal : distribute messages frames heap = .ok final) (target : α) :
    final target = heap target ↔
      (storesInto target messages frames heap ≠ [] →
        Restores (storesInto target messages frames heap) (heap target) ∧
          (heap target).contentsSize = (heap target).size) := by
  have hleaves : Leaves (storesInto target messages frames heap) (heap target)
      (final target) :=
    leaves_of_distribute hfinal
  have hexposes : Exposes (storesInto target messages frames heap)
      (heap target) (final target) :=
    exposes_of_distribute hfinal
  constructor
  · intro heq hstores
    constructor
    · exact (hleaves.same_iff.mp (heq ▸ .refl _)).resolve_left hstores
    · rw [← heq]
      exact hexposes.stored hstores
  · intro hholds
    by_cases hnil : storesInto target messages frames heap = []
    · exact hexposes.untouched hnil
    · obtain ⟨hrestores, hcontents⟩ := hholds hnil
      have hsame := hleaves.same_iff.mpr (Or.inr hrestores)
      have honly := (distribute_onlyChanges messages frames heap).of_ok hfinal
      ext1
      · exact hsame.size
      · exact hsame.offset
      · exact honly.capacity target
      · rw [hexposes.stored hnil, hsame.size, hcontents]
      · exact hsame.bytes

theorem roundStores_eq_nil_iff {target message : α}
    {bufferOffset : ℕ} {frame : FrameData α} {heap : Heap α} :
    roundStores target message bufferOffset frame heap = [] ↔
      message ≠ target := by
  simp [roundStores]

theorem appendStores_of_ne {target message : α} (hne : message ≠ target)
    (frames : List (FrameData α)) (bufferOffset : ℕ) (heap : Heap α) :
    appendStores target message frames bufferOffset heap = [] := by
  induction frames generalizing bufferOffset heap with
  | nil => rfl
  | cons frame rest ih =>
      rw [appendStores]
      split
      · rfl
      · rw [roundStores_eq_nil_iff.mpr hne, ih, List.append_nil]

/-- A message gets nothing exactly if it stands behind as many others as there
are frames. -/
theorem storesInto_eq_nil_iff {target : α} {messages : List α}
    {frames : List (FrameData α)} {heap final : Heap α}
    (hfinal : distribute messages frames heap = .ok final) :
    storesInto target messages frames heap = [] ↔
      ∀ i, messages[i]? = some target → frames.length ≤ i := by
  induction messages generalizing frames heap with
  | nil => cases frames <;> simp [storesInto]
  | cons message rest ih =>
      cases frames with
      | nil => simp [storesInto]
      | cons frame frames =>
          have hfirst : (∀ i, (message :: rest)[i]? = some target →
              (frame :: frames).length ≤ i) ↔ message ≠ target ∧
                ∀ i, rest[i]? = some target → frames.length ≤ i := by
            constructor
            · intro hall
              refine ⟨fun heq => by simpa using hall 0 (by simp [heq]), ?_⟩
              intro i hi
              exact Nat.le_of_succ_le_succ (hall (i + 1) (by simpa using hi))
            · rintro ⟨hne, hall⟩ (_ | i) hi
              · exact absurd (by simpa using hi) hne
              · exact Nat.succ_le_succ (hall i (by simpa using hi))
          rw [hfirst]
          cases rest with
          | nil =>
              rw [distribute_singleton, appendFrames] at hfinal
              rw [storesInto_singleton, appendStores]
              cases hstore : storeFrame message 0 frame heap with
              | none => simp [hstore] at hfinal
              | some next =>
                  simp only [List.append_eq_nil_iff, roundStores_eq_nil_iff]
                  apply and_congr_right
                  intro hne
                  exact iff_of_true (appendStores_of_ne hne _ _ _) (by simp)
          | cons next rest =>
              rw [distribute] at hfinal
              rw [storesInto]
              cases hstore : storeFrame message 0 frame heap with
              | none => simp [hstore] at hfinal
              | some stored =>
                  simp only [hstore] at hfinal
                  simp only [List.append_eq_nil_iff, roundStores_eq_nil_iff,
                    ih hfinal]

end Receive

end Dpn
