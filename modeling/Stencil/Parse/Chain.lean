import Stencil.Parse.Scan

/-!
# Chains

Tags that follow each other without a byte in between may form a chain: a tag joins the one before
it if that one is named `if` and it is itself named `if` or `else`. An `else` that joins nothing is
a fault. The check and the grouping are separate, so grouping is total.
-/

namespace Stencil

namespace Item

/-- Whether a tag may follow the item in a chain. -/
def isIf : Item → Bool
  | .tag _ invocation => invocation.name == "if"
  | .raw _ => false

/-- Whether the item may follow a tag in a chain. -/
def isAlternative : Item → Bool
  | .tag _ invocation => invocation.name == "if" || invocation.name == "else"
  | .raw _ => false

end Item

namespace Chain

/-- Why an `else` cannot stand after an item, or at the start of a text. -/
def strayReason : Option Item → String
  | none => "there is no preceding 'if'"
  | some (.raw _) => "raw text separates it from the preceding tag"
  | some (.tag ..) => "it must directly follow an 'if'"

/-- The first `else` that does not directly follow an `if`, given the item before the list. -/
def strayElse? (previous : Option Item) : List Item → Option Fault
  | [] => none
  | .raw bytes :: rest => strayElse? (some (.raw bytes)) rest
  | .tag remaining invocation :: rest =>
    if invocation.name = "else" ∧ ¬previous.any Item.isIf then
      some ⟨.illegalChain invocation.name (strayReason previous), remaining⟩
    else strayElse? (some (.tag remaining invocation)) rest

/-- Components with a tag added at the front of the first one. -/
def extend (invocation : Invocation Bytes) : List (Component Bytes) → List (Component Bytes)
  | .invocation next :: rest => .chain [invocation, next] :: rest
  | .chain alternatives :: rest => .chain (invocation :: alternatives) :: rest
  | components => .invocation invocation :: components

/-- The components that a list of items forms. -/
def group : List Item → List (Component Bytes)
  | [] => []
  | .raw bytes :: rest => .raw bytes :: group rest
  | .tag _ invocation :: rest =>
    if invocation.name = "if" ∧ rest.head?.any Item.isAlternative then
      extend invocation (group rest)
    else .invocation invocation :: group rest

theorem tags_of_extend {invocation tag : Invocation Bytes} {cs : List (Component Bytes)}
    {c : Component Bytes} (hc : c ∈ extend invocation cs) (ht : tag ∈ c.tags) :
    tag = invocation ∨ ∃ d ∈ cs, tag ∈ d.tags := by
  unfold extend at hc
  split at hc
  · rename_i next rest
    rcases List.mem_cons.1 hc with rfl | hc
    · rcases List.mem_cons.1 ht with rfl | ht
      · exact .inl rfl
      · exact .inr ⟨_, List.mem_cons_self, ht⟩
    · exact .inr ⟨c, List.mem_cons_of_mem _ hc, ht⟩
  · rename_i alternatives rest
    rcases List.mem_cons.1 hc with rfl | hc
    · rcases List.mem_cons.1 ht with rfl | ht
      · exact .inl rfl
      · exact .inr ⟨_, List.mem_cons_self, ht⟩
    · exact .inr ⟨c, List.mem_cons_of_mem _ hc, ht⟩
  · rcases List.mem_cons.1 hc with rfl | hc
    · exact .inl (List.mem_singleton.1 ht)
    · exact .inr ⟨c, hc, ht⟩

/-- Grouping makes up no tag. -/
theorem mem_of_tags_of_group {items : List Item} {c : Component Bytes}
    {tag : Invocation Bytes} (hc : c ∈ group items) (ht : tag ∈ c.tags) :
    ∃ remaining, .tag remaining tag ∈ items := by
  induction items generalizing c with
  | nil => simp [group] at hc
  | cons item rest ih =>
    have later {c : Component Bytes} (hc : c ∈ group rest) (ht : tag ∈ c.tags) :
        ∃ remaining, .tag remaining tag ∈ item :: rest := by
      obtain ⟨remaining, h⟩ := ih hc ht
      exact ⟨remaining, List.mem_cons_of_mem _ h⟩
    cases item with
    | raw bytes =>
      rcases List.mem_cons.1 hc with rfl | hc
      · simp [Component.tags] at ht
      · exact later hc ht
    | tag remaining invocation =>
      unfold group at hc
      split at hc
      · rcases tags_of_extend hc ht with rfl | ⟨d, hd, ht⟩
        · exact ⟨remaining, List.mem_cons_self⟩
        · exact later hd ht
      · rcases List.mem_cons.1 hc with rfl | hc
        · obtain rfl := List.mem_singleton.1 ht
          exact ⟨remaining, List.mem_cons_self⟩
        · exact later hc ht

end Chain

end Stencil
