import Mathlib.Data.List.Infix
import Mathlib.Logic.Function.Basic

/-!
# Families of queues

Queues under keys, to which items are put at the end and from which they are
taken at the head.  Whatever the order of the moves, nothing is lost, repeated
or reordered: for every key, what was there and what was put is what was taken
and what is left.
-/

namespace FifoQueues

variable {κ β γ : Type*}

inductive Move (κ β : Type*) where
  | put (key : κ) (item : β)
  | take (key : κ) (item : β)
  deriving DecidableEq, Repr

namespace Move

def key : Move κ β → κ
  | .put key _ => key
  | .take key _ => key

def item : Move κ β → β
  | .put _ item => item
  | .take _ item => item

def map (f : β → γ) : Move κ β → Move κ γ
  | .put key item => .put key (f item)
  | .take key item => .take key (f item)

end Move

section Moves

variable [DecidableEq κ]

def put (key : κ) (item : β) (queues : κ → List β) : κ → List β :=
  Function.update queues key (queues key ++ [item])

/-- The moves lead from one family of queues to another; only the head of a
queue can be taken. -/
inductive Moves : (κ → List β) → List (Move κ β) → (κ → List β) → Prop
  | nil (queues : κ → List β) : Moves queues [] queues
  | put {queues final : κ → List β} {moves : List (Move κ β)} (key : κ)
      (item : β) :
      Moves (put key item queues) moves final →
      Moves queues (.put key item :: moves) final
  | take {queues final : κ → List β} {moves : List (Move κ β)} {key : κ}
      {item : β} {rest : List β} :
      queues key = item :: rest →
      Moves (Function.update queues key rest) moves final →
      Moves queues (.take key item :: moves) final

def puts (key : κ) : List (Move κ β) → List β
  | [] => []
  | .put other item :: moves =>
      if other = key then item :: puts key moves else puts key moves
  | .take _ _ :: moves => puts key moves

def takes (key : κ) : List (Move κ β) → List β
  | [] => []
  | .put _ _ :: moves => takes key moves
  | .take other item :: moves =>
      if other = key then item :: takes key moves else takes key moves

theorem mem_puts {key : κ} {item : β} {moves : List (Move κ β)} :
    item ∈ puts key moves ↔ .put key item ∈ moves := by
  induction moves with
  | nil => simp [puts]
  | cons move moves ih =>
      cases move with
      | put other found =>
          by_cases heq : other = key
          · subst other
            simp [puts, ih]
          · simp [puts, heq, Ne.symm heq, ih]
      | take other found => simp [puts, ih]

theorem Moves.append {queues middle final : κ → List β}
    {first second : List (Move κ β)} (hfirst : Moves queues first middle)
    (hsecond : Moves middle second final) :
    Moves queues (first ++ second) final := by
  induction hfirst with
  | nil => exact hsecond
  | put key item _ ih => exact .put key item (ih hsecond)
  | take hhead _ ih => exact .take hhead (ih hsecond)

/-- Conservation: what was there and what came is what went and what is
left, in this order. -/
theorem Moves.conserves {queues final : κ → List β}
    {moves : List (Move κ β)} (h : Moves queues moves final) (key : κ) :
    queues key ++ puts key moves = takes key moves ++ final key := by
  induction h with
  | nil queues => simp [puts, takes]
  | @put queues final moves other item _ ih =>
      by_cases heq : other = key
      · subst other
        simpa [puts, takes, FifoQueues.put] using ih
      · simpa [puts, takes, FifoQueues.put, heq, Ne.symm heq] using ih
  | @take queues final moves other item rest hhead _ ih =>
      by_cases heq : other = key
      · subst other
        simpa [puts, takes, hhead] using ih
      · simpa [puts, takes, heq, Ne.symm heq] using ih

theorem Moves.takes_prefix {queues final : κ → List β}
    {moves : List (Move κ β)} (h : Moves queues moves final) (key : κ) :
    takes key moves <+: queues key ++ puts key moves :=
  ⟨final key, (h.conserves key).symm⟩

/-- If nothing is left, what went is what was there and what came. -/
theorem Moves.takes_of_empty {queues : κ → List β} {moves : List (Move κ β)}
    (h : Moves queues moves fun _ => []) (key : κ) :
    takes key moves = queues key ++ puts key moves := by
  rw [h.conserves key, List.append_nil]

/-! ## How much is waiting -/

/-- The number of items in the queues under the keys. -/
def waiting (keys : List κ) (queues : κ → List β) : ℕ :=
  match keys with
  | [] => 0
  | key :: others => (queues key).length + waiting others queues

omit [DecidableEq κ] in
theorem waiting_eq_zero_iff {keys : List κ} {queues : κ → List β} :
    waiting keys queues = 0 ↔ ∀ key ∈ keys, queues key = [] := by
  induction keys with
  | nil => simp [waiting]
  | cons first others ih =>
      rw [waiting, Nat.add_eq_zero_iff, List.length_eq_zero_iff, ih,
        List.forall_mem_cons]

omit [DecidableEq κ] in
theorem waiting_congr {γ : Type*} {keys : List κ} {queues : κ → List β}
    {others : κ → List γ}
    (hlength : ∀ key ∈ keys, (queues key).length = (others key).length) :
    waiting keys queues = waiting keys others := by
  induction keys with
  | nil => rfl
  | cons first rest ih =>
      obtain ⟨hfirst, hrest⟩ := List.forall_mem_cons.mp hlength
      rw [waiting, waiting, hfirst, ih hrest]

theorem waiting_update_of_notMem {keys : List κ} {queues : κ → List β} {key : κ}
    (hkey : key ∉ keys) (queue : List β) :
    waiting keys (Function.update queues key queue) = waiting keys queues := by
  induction keys with
  | nil => rfl
  | cons first others ih =>
      obtain ⟨hfirst, hothers⟩ := not_or.mp (mt List.mem_cons.mpr hkey)
      rw [waiting, waiting, ih hothers, Function.update_of_ne (Ne.symm hfirst)]

/-- Taking an item leaves one item less. -/
theorem waiting_take {keys : List κ} {queues : κ → List β} {key : κ} {item : β}
    {rest : List β} (hkeys : keys.Nodup) (hkey : key ∈ keys)
    (hhead : queues key = item :: rest) :
    waiting keys (Function.update queues key rest) + 1 = waiting keys queues := by
  induction keys with
  | nil => contradiction
  | cons first others ih =>
      obtain ⟨hfirst, hothers⟩ := List.nodup_cons.mp hkeys
      rw [waiting, waiting]
      by_cases heq : key = first
      · subst first
        rw [waiting_update_of_notMem hfirst, Function.update_self, hhead,
          List.length_cons]
        omega
      · have hrest := ih hothers ((List.mem_cons.mp hkey).resolve_left heq)
        rw [Function.update_of_ne (Ne.symm heq)]
        omega

/-- Looking at the items through a function does not change the moves. -/
theorem Moves.map (f : β → γ) {queues final : κ → List β}
    {moves : List (Move κ β)} (h : Moves queues moves final) :
    Moves (fun key => (queues key).map f) (moves.map (Move.map f))
      fun key => (final key).map f := by
  induction h with
  | nil queues => exact .nil _
  | @put queues final moves key item _ ih =>
      have hput : (fun other => (FifoQueues.put key item queues other).map f) =
          FifoQueues.put key (f item) fun other => (queues other).map f := by
        funext other
        by_cases heq : other = key
        · subst other
          simp [FifoQueues.put]
        · simp [FifoQueues.put, heq]
      rw [hput] at ih
      exact .put key (f item) ih
  | @take queues final moves key item rest hhead _ ih =>
      have htake : (fun other => (Function.update queues key rest other).map f) =
          Function.update (fun other => (queues other).map f) key
            (rest.map f) := by
        funext other
        by_cases heq : other = key
        · subst other
          simp
        · simp [heq]
      rw [htake] at ih
      exact .take (by rw [hhead, List.map_cons]) ih

end Moves

/-! ## The queues of one list -/

section ByKey

variable [DecidableEq κ] {key : β → κ}

/-- The items of a list, queued under their keys. -/
def byKey (key : β → κ) (items : List β) (own : κ) : List β :=
  items.filter fun item => key item = own

theorem byKey_append (items others : List β) (own : κ) :
    byKey key (items ++ others) own = byKey key items own ++ byKey key others own :=
  List.filter_append ..

theorem byKey_concat (items : List β) (item : β) :
    byKey key (items ++ [item]) = put (key item) item (byKey key items) := by
  funext own
  by_cases heq : own = key item
  · subst own
    simp [byKey, put]
  · simp [byKey, put, heq, Ne.symm heq]

theorem byKey_eq_nil {items : List β} {own : κ}
    (h : ∀ item ∈ items, key item ≠ own) : byKey key items own = [] := by
  rw [byKey, List.filter_eq_nil_iff]
  simpa using h

theorem byKey_concat_of_ne {items : List β} {item : β} {own : κ}
    (hother : key item ≠ own) :
    byKey key (items ++ [item]) own = byKey key items own := by
  simp [byKey, hother]

theorem byKey_remove {before after : List β} {item : β} {own : κ}
    (hother : key item ≠ own) :
    byKey key (before ++ item :: after) own = byKey key (before ++ after) own := by
  simp [byKey, hother]

/-- The first item under its key can be taken. -/
theorem moves_take_first {before after : List β} {item : β}
    (hfirst : ∀ other ∈ before, key other ≠ key item) :
    Moves (byKey key (before ++ item :: after)) [.take (key item) item]
      (byKey key (before ++ after)) := by
  have hhead : byKey key (before ++ item :: after) (key item) =
      item :: byKey key after (key item) := by
    have hnil := byKey_eq_nil hfirst
    rw [byKey] at hnil
    simp [byKey, hnil]
  have hrest : Function.update (byKey key (before ++ item :: after)) (key item)
      (byKey key after (key item)) = byKey key (before ++ after) := by
    funext own
    by_cases heq : own = key item
    · subst own
      have hnil := byKey_eq_nil hfirst
      rw [byKey] at hnil
      simp [byKey, hnil]
    · simp [byKey, heq, Ne.symm heq]
  exact .take hhead (hrest ▸ .nil _)

/-- The first item under its key can be moved in front of items with other
keys. -/
theorem byKey_advance {before after : List β} {item : β}
    (hfirst : ∀ other ∈ before, key other ≠ key item) :
    byKey key (before ++ item :: after) =
      byKey key (item :: (before ++ after)) := by
  funext own
  by_cases heq : key item = own
  · subst own
    have hnil := byKey_eq_nil hfirst
    rw [byKey] at hnil
    simp [byKey, hnil]
  · simp [byKey, heq]

end ByKey

end FifoQueues
