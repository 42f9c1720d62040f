import Meshezia.Lib.OMap

/-!
# Policy routing

Routing tables and the rules that choose among them.  A route stands in a table under its
destination and names a link; a rule sends the packets with its mark (or all of them) to
a table.  The rules are tried by priority, and a packet leaves by a route of the first table
that has one for it (`Leaves`).

The operations are those of a program that sets up routes: replace a route, flush a table, add
a rule, delete the rules of a table one at a time (`dropRules`), and forget a link.

* `leaves_of_only`: when a rule for a mark comes before all others that have a route, and its
  table has one route, for every address, the packets with the mark leave by that route.
* `dropRules_eq`: the loop that deletes one rule after the other ends, and leaves the rules of
  the other tables.
-/

namespace Meshezia

structure IpRule where
  prio : Nat
  /-- `none` for a rule about every packet. -/
  fwmark : Option Nat
  table : Nat
deriving DecidableEq, Repr

def IpRule.Matches (rule : IpRule) (mark : Nat) : Prop := ∀ m ∈ rule.fwmark, m = mark

/-- The rules and the routes of a host; `δ` are the destinations and `κ` the links. -/
structure PolicyRoutes (δ κ : Type) where
  routes : OMap (Nat × δ) κ
  rules : List IpRule

namespace PolicyRoutes

variable {δ κ : Type}

/-! ## Operations -/

/-- Set the route of a table for a destination. -/
def replace [DecidableEq δ] (r : PolicyRoutes δ κ) (table : Nat) (dest : δ) (link : κ) : PolicyRoutes δ κ :=
  { r with routes := r.routes.set (table, dest) link }

/-- Remove all routes of a table. -/
def flush (r : PolicyRoutes δ κ) (table : Nat) : PolicyRoutes δ κ :=
  { r with routes := r.routes.filter fun k _ => !decide (k.1 = table) }

/-- Remove the routes over a link. -/
def forgetLink [DecidableEq κ] (r : PolicyRoutes δ κ) (link : κ) : PolicyRoutes δ κ :=
  { r with routes := r.routes.filter fun _ l => !decide (l = link) }

def addRule (r : PolicyRoutes δ κ) (rule : IpRule) : PolicyRoutes δ κ :=
  { r with rules := r.rules ++ [rule] }

/-- The rules of a table. -/
def showRules (r : PolicyRoutes δ κ) (table : Nat) : List IpRule :=
  r.rules.filter fun rule => decide (rule.table = table)

/-- Delete the first rule of a table. -/
def delRule (r : PolicyRoutes δ κ) (table : Nat) : PolicyRoutes δ κ :=
  { r with rules := r.rules.eraseP fun rule => decide (rule.table = table) }

theorem length_delRule_lt {r : PolicyRoutes δ κ} {table : Nat} (h : r.showRules table ≠ []) :
    (r.delRule table).rules.length < r.rules.length := by
  obtain ⟨rule, hrule⟩ := List.exists_mem_of_ne_nil _ h
  obtain ⟨hmem, htable⟩ := List.mem_filter.mp hrule
  have hlen : (r.rules.eraseP fun rule => decide (rule.table = table)).length =
      r.rules.length - 1 := List.length_eraseP_of_mem hmem htable
  have hpos := List.length_pos_of_mem hmem
  show (r.rules.eraseP _).length < _
  omega

/-- Delete the rules of a table one after the other, as long as it has any. -/
def dropRules (r : PolicyRoutes δ κ) (table : Nat) : PolicyRoutes δ κ :=
  if _h : r.showRules table ≠ [] then (r.delRule table).dropRules table else r
termination_by r.rules.length
decreasing_by exact length_delRule_lt _h

/-! ## What they change -/

section
variable [DecidableEq δ] (r : PolicyRoutes δ κ) (table table' : Nat) (dest dest' : δ) (link : κ)

theorem get?_replace : (r.replace table dest link).routes.get? (table', dest') =
    if table = table' ∧ dest = dest' then some link else r.routes.get? (table', dest') := by
  rw [replace, OMap.get?_set]
  simp only [Prod.mk.injEq]

theorem get?_flush : (r.flush table).routes.get? (table', dest) =
    if table' = table then none else r.routes.get? (table', dest) := by
  rw [flush, OMap.get?_filter]
  by_cases h : table' = table
  · rw [if_pos h]
    cases r.routes.get? (table', dest) <;> simp [Option.filter, h]
  · rw [if_neg h]
    cases r.routes.get? (table', dest) <;> simp [Option.filter, h]

theorem get?_forgetLink [DecidableEq κ] : (r.forgetLink link).routes.get? (table, dest) =
    (r.routes.get? (table, dest)).filter fun l => !decide (l = link) := by
  rw [forgetLink, OMap.get?_filter]

end

theorem mem_showRules (r : PolicyRoutes δ κ) (table : Nat) {rule : IpRule} :
    rule ∈ r.showRules table ↔ rule ∈ r.rules ∧ rule.table = table := by
  rw [showRules, List.mem_filter, decide_eq_true_eq]

theorem showRules_addRule (r : PolicyRoutes δ κ) (table : Nat) (rule : IpRule) :
    (r.addRule rule).showRules table =
      r.showRules table ++ if rule.table = table then [rule] else [] := by
  unfold showRules addRule
  rw [List.filter_append]
  by_cases h : rule.table = table <;> simp [h]

theorem filter_eraseP_not {α : Type} (p : α → Bool) (l : List α) :
    (l.eraseP p).filter (fun a => !p a) = l.filter fun a => !p a := by
  induction l with
  | nil => rfl
  | cons a rest ih =>
    cases hp : p a with
    | true => simp [hp]
    | false => simp [hp, ih]

/-- **The loop.**  It ends when the table has no rule, and touches no other. -/
theorem dropRules_eq (r : PolicyRoutes δ κ) (table : Nat) :
    r.dropRules table =
      { r with rules := r.rules.filter fun rule => !decide (rule.table = table) } := by
  induction r using dropRules.induct table with
  | case1 r h ih =>
    rw [dropRules, dif_pos h, ih]
    unfold delRule
    rw [filter_eraseP_not]
  | case2 r h =>
    rw [dropRules, dif_neg h]
    have hnone : r.rules.filter (fun rule => !decide (rule.table = table)) = r.rules := by
      rw [List.filter_eq_self]
      intro rule hrule
      by_contra htable
      refine h (List.ne_nil_of_mem ((mem_showRules r table).mpr ⟨hrule, ?_⟩))
      simpa using htable
    rw [hnone]

theorem showRules_dropRules (r : PolicyRoutes δ κ) (table table' : Nat) :
    (r.dropRules table).showRules table' =
      if table' = table then [] else r.showRules table' := by
  rw [dropRules_eq]
  unfold showRules
  rw [List.filter_filter]
  by_cases h : table' = table
  · rw [if_pos h, List.filter_eq_nil_iff]
    intro rule _
    simp [h]
  · rw [if_neg h]
    refine List.filter_congr fun rule _ => ?_
    by_cases hrule : rule.table = table'
    · simp [hrule, h]
    · simp [hrule]

/-! ## Where packets leave -/

section
variable {α : Type} [DecidableEq δ] (covers : δ → α → Prop)

/-- A table has a route for an address over this link. -/
def Serves (r : PolicyRoutes δ κ) (table : Nat) (addr : α) (link : κ) : Prop :=
  ∃ dest, r.routes.get? (table, dest) = some link ∧ covers dest addr

/-- A packet with this mark leaves by this link: by a route of the first table that has one. -/
def Leaves (r : PolicyRoutes δ κ) (mark : Nat) (addr : α) (link : κ) : Prop :=
  ∃ rule ∈ r.rules, rule.Matches mark ∧ r.Serves covers rule.table addr link ∧
    ∀ rule' ∈ r.rules, rule'.prio < rule.prio → rule'.Matches mark →
      ∀ link', ¬ r.Serves covers rule'.table addr link'

/-- **A rule with a table of its own.**  The only rules up to its priority that have a route for
the address are those of its table, and the table has one route, which covers it. -/
theorem leaves_of_only {r : PolicyRoutes δ κ} {rule : IpRule} {mark : Nat} {addr : α} {dest : δ}
    {link : κ} (hrule : rule ∈ r.rules) (hmark : rule.Matches mark)
    (hroute : ∀ d l, r.routes.get? (rule.table, d) = some l ↔ d = dest ∧ l = link)
    (hcovers : covers dest addr)
    (hfirst : ∀ rule' ∈ r.rules, rule'.prio ≤ rule.prio → rule'.Matches mark →
      rule'.table = rule.table ∨ ∀ l, ¬ r.Serves covers rule'.table addr l)
    (hprio : ∀ rule' ∈ r.rules, rule'.table = rule.table → rule.prio ≤ rule'.prio)
    (link' : κ) : r.Leaves covers mark addr link' ↔ link' = link := by
  have hserves : ∀ l, r.Serves covers rule.table addr l ↔ l = link := by
    intro l
    constructor
    · rintro ⟨d, hd, -⟩
      exact ((hroute d l).mp hd).2
    · rintro rfl
      exact ⟨dest, (hroute dest l).mpr ⟨rfl, rfl⟩, hcovers⟩
  constructor
  · rintro ⟨rule', hmem, hmatch, hserve, hbefore⟩
    -- a rule after this one comes too late
    have hle : rule'.prio ≤ rule.prio := by
      by_contra hlt
      exact hbefore rule hrule (by omega) hmark link ((hserves link).mpr rfl)
    rcases hfirst rule' hmem hle hmatch with htable | hnone
    · rw [htable] at hserve
      exact (hserves link').mp hserve
    · exact absurd hserve (hnone link')
  · rintro rfl
    refine ⟨rule, hrule, hmark, (hserves link').mpr rfl, ?_⟩
    intro rule' hmem hlt hmatch l hserve
    rcases hfirst rule' hmem (by omega) hmatch with htable | hnone
    · have := hprio rule' hmem htable
      omega
    · exact hnone l hserve

end

end PolicyRoutes

end Meshezia
