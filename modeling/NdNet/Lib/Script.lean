import Mathlib.Data.List.Basic

/-!
# Scripts that print

A script prints one item after the other.  Whatever takes the items says of each
whether it has taken it, and the script may go on differently where one was not
taken.  What is taken here are the bytes an item is translated to, if it can be
translated at all and there is room for them.

A script that overlooks what was not taken still comes to its end.
-/

namespace NdNet

/-- A program that prints items of `ι`, and fails with `ε` or gives an `α`. -/
inductive Script (ε ι α : Type) where
  | done (value : α)
  | fault (error : ε)
  | print (item : ι) (next : Bool → Script ε ι α)

namespace Script

variable {ε ι α β σ : Type}

def bind : Script ε ι α → (α → Script ε ι β) → Script ε ι β
  | done value, rest => rest value
  | fault error, _ => fault error
  | print item next, rest => print item fun taken => (next taken).bind rest

instance : Monad (Script ε ι) where
  pure := done
  bind := bind

def say (item : ι) : Script ε ι Unit :=
  print item fun _ => done ()

/-- An item is printed and it is told whether it was taken. -/
def ask (item : ι) : Script ε ι Bool :=
  print item done

/-- The items go to `take`, which keeps a state. -/
def onto (take : σ → ι → Except ε (Bool × σ)) :
    Script ε ι α → σ → Except ε (α × σ)
  | done value, state => .ok (value, state)
  | fault error, _ => .error error
  | print item next, state =>
    take state item >>= fun taken => (next taken.1).onto take taken.2

section Onto

variable (take : σ → ι → Except ε (Bool × σ)) (state : σ)

@[simp] theorem onto_pure (value : α) :
    (pure value : Script ε ι α).onto take state = pure (value, state) :=
  rfl

attribute [local simp] onto in
@[simp] theorem onto_bind (script : Script ε ι α) (rest : α → Script ε ι β) :
    (script >>= rest).onto take state =
      script.onto take state >>= fun ended =>
        (rest ended.1).onto take ended.2 := by
  change (script.bind rest).onto take state = _
  induction script generalizing state with
  | done value | fault error => rfl
  | print item next induction =>
    rw [bind, onto, onto, bind_assoc]
    congr 1
    funext taken
    exact induction taken.1 taken.2

@[simp] theorem onto_say (item : ι) :
    (say item).onto take state =
      (take state item).map fun taken => ((), taken.2) := by
  rw [say, onto]
  cases take state item <;> rfl

@[simp] theorem onto_ask (item : ι) :
    (ask item).onto take state = take state item := by
  rw [ask, onto]
  cases take state item <;> rfl

end Onto

section Store

-- the translation of an item; it may be refused, or fail altogether
variable (block : ι → Except ε (Option (List β)))

/-- The bytes that are taken by a buffer with `room` bytes. -/
def store : Nat → Script ε ι α → Except ε (List β × α)
  | _, done value => .ok ([], value)
  | _, fault error => .error error
  | room, print item next =>
    match block item with
    | .error error => .error error
    | .ok none => store room (next false)
    | .ok (some bytes) =>
      if bytes.length ≤ room then
        (store (room - bytes.length) (next true)).map fun ended =>
          (bytes ++ ended.1, ended.2)
      else store room (next false)

/-- The same if the first item that is not taken ends it all. -/
def strict (refused : ε) : Nat → Script ε ι α → Except ε (List β × α)
  | _, done value => .ok ([], value)
  | _, fault error => .error error
  | room, print item next =>
    match block item with
    | .error error => .error error
    | .ok none => .error refused
    | .ok (some bytes) =>
      if bytes.length ≤ room then
        (strict refused (room - bytes.length) (next true)).map
          fun ended => (bytes ++ ended.1, ended.2)
      else .error refused

/-- The translations of all items, with no limit to the room. -/
def listing : Script ε ι α → Except ε (List (Option (List β)) × α)
  | done value => .ok ([], value)
  | fault error => .error error
  | print item next =>
    match block item with
    | .error error => .error error
    | .ok translated =>
      (listing (next translated.isSome)).map fun ended =>
        (translated :: ended.1, ended.2)

def bytesOf (blocks : List (Option (List β))) : List β :=
  blocks.flatMap (Option.getD · [])

end Store

variable {next : Bool → Script ε ι α} {blocks : List (Option (List β))}

section Whole

variable {block : ι → Except ε (Option (List β))} {refused : ε} {room : Nat}
  {script : Script ε ι α} {bytes : List β} {value : α}

theorem map_front {γ δ : Type} {result : Except ε (γ × α)} {front : γ → δ}
    {whole : δ} :
    result.map (fun ended => (front ended.1, ended.2)) = .ok (whole, value) ↔
      ∃ rest, result = .ok (rest, value) ∧ whole = front rest := by
  cases result with
  | error error => simp [Except.map]
  | ok ended =>
    obtain ⟨rest, other⟩ := ended
    simp [Except.map, and_comm, eq_comm]

attribute [local simp] store in
theorem store_print {item : ι} :
    (print item next).store block room = .ok (bytes, value) ↔
      (∃ first, block item = .ok (some first) ∧ first.length ≤ room ∧
        ∃ rest, (next true).store block (room - first.length) =
          .ok (rest, value) ∧ bytes = first ++ rest) ∨
      ((block item = .ok none ∨
          ∃ first, block item = .ok (some first) ∧ room < first.length) ∧
        (next false).store block room = .ok (bytes, value)) := by
  rw [store]
  cases translated : block item with
  | error error => simp
  | ok found =>
    cases found with
    | none => simp
    | some first =>
      dsimp only
      split
      · rename_i fits
        rw [@map_front _ _ _ _ _ _ (first ++ ·)]
        simp [fits, Nat.not_lt.mpr fits]
      · rename_i full
        simp [full, Nat.not_le.mp full]

attribute [local simp] strict in
theorem strict_print {item : ι} :
    (print item next).strict block refused room = .ok (bytes, value) ↔
      ∃ first, block item = .ok (some first) ∧ first.length ≤ room ∧
        ∃ rest, (next true).strict block refused (room - first.length) =
          .ok (rest, value) ∧ bytes = first ++ rest := by
  rw [strict]
  cases translated : block item with
  | error error => simp
  | ok found =>
    cases found with
    | none => simp
    | some first =>
      dsimp only
      split
      · rename_i fits
        rw [@map_front _ _ _ _ _ _ (first ++ ·)]
        simp [fits]
      · rename_i full
        simp [full]

attribute [local simp] listing in
theorem listing_print {item : ι} :
    (print item next).listing block = .ok (blocks, value) ↔
      ∃ translated, block item = .ok translated ∧
        ∃ rest, (next translated.isSome).listing block = .ok (rest, value) ∧
          blocks = translated :: rest := by
  rw [listing]
  cases translated : block item with
  | error error => simp
  | ok found =>
    rw [@map_front _ _ _ _ _ _ (found :: ·)]
    simp

theorem store_length (stored : script.store block room = .ok (bytes, value)) :
    bytes.length ≤ room := by
  induction script generalizing room bytes with
  | done other =>
    obtain ⟨rfl, -⟩ := Prod.mk.inj (Except.ok.inj stored)
    exact Nat.zero_le _
  | fault error => cases stored
  | print item next induction =>
    rcases store_print.mp stored with
      ⟨first, -, fits, rest, later, rfl⟩ | ⟨-, later⟩
    · have short := induction true later
      rw [List.length_append]
      omega
    · exact induction false later

@[simp] theorem bytesOf_none (blocks : List (Option (List β))) :
    bytesOf (none :: blocks) = bytesOf blocks :=
  rfl

@[simp] theorem bytesOf_some (first : List β) (blocks : List (Option (List β)))
    :
    bytesOf (some first :: blocks) = first ++ bytesOf blocks :=
  rfl

theorem store_of_listing (listed : script.listing block = .ok (blocks, value))
    (fits : (bytesOf blocks).length ≤ room) :
    script.store block room = .ok (bytesOf blocks, value) := by
  induction script generalizing room blocks with
  | done other =>
    obtain ⟨rfl, rfl⟩ := Prod.mk.inj (Except.ok.inj listed)
    rfl
  | fault error => cases listed
  | print item next induction =>
    obtain ⟨translated, found, rest, later, rfl⟩ := listing_print.mp listed
    apply store_print.mpr
    cases translated with
    | none =>
      rw [bytesOf_none] at fits ⊢
      exact .inr ⟨.inl found, induction false later fits⟩
    | some first =>
      rw [bytesOf_some, List.length_append] at fits
      exact .inl ⟨first, found, by omega, _,
        induction true later (by omega), rfl⟩

/-- If an item more had room and the same bytes are stored, there was room for
all of the listing. -/
theorem listing_of_store {widest : Nat} {other : α}
    (narrow : ∀ item bytes, block item = .ok (some bytes) →
      bytes.length ≤ widest)
    (stored : script.store block room = .ok (bytes, value))
    (same : script.store block (room + widest) = .ok (bytes, other)) :
    ∃ blocks, script.listing block = .ok (blocks, value) ∧
      bytesOf blocks = bytes := by
  have unique : ∀ {item : ι} {one two : List β},
      block item = .ok (some one) → block item = .ok (some two) → one = two :=
    fun found again =>
      Option.some.inj (Except.ok.inj (found.symm.trans again))
  induction script generalizing room bytes with
  | done value =>
    obtain ⟨rfl, rfl⟩ := Prod.mk.inj (Except.ok.inj stored)
    exact ⟨[], rfl, rfl⟩
  | fault error => cases stored
  | print item next induction =>
    rcases store_print.mp stored with
      ⟨first, found, fits, rest, later, rfl⟩ |
      ⟨refused | ⟨first, found, beyond⟩, later⟩
    · rcases store_print.mp same with
        ⟨again, refound, -, more, longer, equal⟩ |
        ⟨missed | ⟨again, refound, beyond⟩, -⟩
      · obtain rfl := unique found refound
        obtain rfl := List.append_cancel_left equal
        have wider : room + widest - first.length =
            room - first.length + widest := by omega
        rw [wider] at longer
        obtain ⟨blocks, listed, whole⟩ := induction true later longer
        exact ⟨some first :: blocks,
          listing_print.mpr ⟨_, found, blocks, listed, rfl⟩, by
            rw [bytesOf_some, whole]⟩
      · cases found.symm.trans missed
      · obtain rfl := unique found refound
        omega
    · rcases store_print.mp same with
        ⟨again, found, -⟩ | ⟨-, longer⟩
      · cases refused.symm.trans found
      · obtain ⟨blocks, listed, whole⟩ := induction false later longer
        exact ⟨none :: blocks,
          listing_print.mpr ⟨_, refused, blocks, listed, rfl⟩, whole⟩
    · -- the item is stored in the wider buffer only
      have short := store_length stored
      have bound := narrow item first found
      rcases store_print.mp same with
        ⟨again, refound, -, rest, -, rfl⟩ |
        ⟨missed | ⟨again, refound, beyond⟩, -⟩
      · obtain rfl := unique found refound
        rw [List.length_append] at short
        omega
      · cases found.symm.trans missed
      · obtain rfl := unique found refound
        omega

/-- Nothing is overlooked exactly if every item has a translation and there is
room for all of them. -/
theorem strict_iff : script.strict block refused room = .ok (bytes, value) ↔
    ∃ blocks, script.listing block = .ok (blocks, value) ∧ none ∉ blocks ∧
      bytesOf blocks = bytes ∧ bytes.length ≤ room := by
  induction script generalizing room bytes with
  | done other =>
    constructor
    · intro whole
      obtain ⟨rfl, rfl⟩ := Prod.mk.inj (Except.ok.inj whole)
      exact ⟨[], rfl, List.not_mem_nil, rfl, Nat.zero_le _⟩
    · rintro ⟨blocks, listed, -, rfl, -⟩
      obtain ⟨rfl, rfl⟩ := Prod.mk.inj (Except.ok.inj listed)
      rfl
  | fault error =>
    constructor
    · intro whole
      cases whole
    · rintro ⟨blocks, listed, -⟩
      cases listed
  | print item next induction =>
    rw [strict_print]
    constructor
    · rintro ⟨first, found, fits, rest, later, rfl⟩
      obtain ⟨blocks, listed, all, rfl, short⟩ := (induction true).mp later
      refine ⟨some first :: blocks,
        listing_print.mpr ⟨_, found, blocks, listed, rfl⟩, ?_, rfl, ?_⟩
      · rw [List.mem_cons, not_or]
        exact ⟨nofun, all⟩
      · rw [List.length_append]
        omega
    · rintro ⟨blocks, listed, all, rfl, fits⟩
      obtain ⟨translated, found, rest, later, rfl⟩ :=
        listing_print.mp listed
      cases translated with
      | none => exact absurd List.mem_cons_self all
      | some first =>
        rw [bytesOf_some, List.length_append] at fits
        refine ⟨first, found, by omega, bytesOf rest, ?_, rfl⟩
        exact (induction true).mpr ⟨rest, later,
          fun member => all (List.mem_cons_of_mem _ member), rfl,
          by omega⟩

end Whole

end Script

end NdNet
