import RightPart.Proofs.Expr.Automaton

namespace RightPart

theorem Except.bind_eq_ok {ε α β : Type} {x : Except ε α} {f : α → Except ε β} {b : β} :
    x >>= f = .ok b ↔ ∃ a, x = .ok a ∧ f a = .ok b := by
  cases x <;> simp [bind, Except.bind]

theorem Except.mapError_eq_ok {ε ε' α : Type} {x : Except ε α} {f : ε → ε'} {a : α} :
    x.mapError f = .ok a ↔ x = .ok a := by
  cases x <;> simp [Except.mapError]

namespace Scope

/-- Only an abbreviation changes the meaning of the expressions that come after it. -/
def define (s : Scope) : Definition → Scope
  | .abbreviation name body =>
    { s with macros := fun n ↦ if n = name then some (body.language s) else s.macros n }
  | _ => s

def declared (kind : Kind) (l : List Definition) : Scope where
  kind
  isNonterminal n := decide (n ∈ l.flatMap Definition.declared)
  macros _ := none

/-- The scope behind some of the definitions of a list. -/
def after (kind : Kind) (l pre : List Definition) : Scope := pre.foldl define (declared kind l)

theorem isNonterminal_define (s : Scope) (x : Definition) :
    (s.define x).isNonterminal = s.isNonterminal := by
  cases x <;> rfl

theorem kind_define (s : Scope) (x : Definition) : (s.define x).kind = s.kind := by
  cases x <;> rfl

theorem kind_foldl_define (s : Scope) (pre : List Definition) :
    (pre.foldl define s).kind = s.kind := by
  induction pre generalizing s with
  | nil => rfl
  | cons x pre ih => rw [List.foldl_cons, ih, kind_define]

end Scope

namespace Draft

variable {d d' : Draft} {kind : Kind} {l pre : List Definition} {x : Definition} {g : Grammar}
  {name left : String} {m : Automaton} {s : Scope}

theorem declareNonterminal_eq_ok (h : d.declareNonterminal name = .ok d') :
    d' = { d with nonterminals := d.nonterminals.insert name } := by
  unfold declareNonterminal at h
  split at h
  · cases h
  · split at h
    · cases h
    · exact (Except.ok.inj h).symm

theorem addProduction_eq_ok (h : d.addProduction left m = .ok d') :
    d' = { d with
      nonterminals := d.nonterminals.insert left
      rules := d.rules.alter left fun
        | none => { body := m }
        | some r => { r with body := r.body.union m } } := by
  obtain ⟨d₁, h₁, h⟩ := Except.bind_eq_ok.1 h
  obtain rfl := declareNonterminal_eq_ok h₁
  exact (Except.ok.inj h).symm

theorem addGoal_eq_ok {lookahead : List String} (h : d.addGoal left m lookahead = .ok d') :
    ∃ d₁, d.addProduction left m = .ok d₁ ∧ d' = { d₁ with
      rules := d₁.rules.alter left fun
        | none => { body := m, lookahead := some (.ofList lookahead) }
        | some r => { r with lookahead := some ((r.lookahead.getD ∅).extend lookahead) } } := by
  unfold addGoal at h
  split at h
  · cases h
  · obtain ⟨d₁, h₁, h⟩ := Except.bind_eq_ok.1 h
    exact ⟨d₁, h₁, (Except.ok.inj h).symm⟩

theorem defineMacro_eq_ok (h : d.defineMacro name m = .ok d') :
    d' = { d with macros := d.macros.insert name m } := by
  unfold defineMacro at h
  split at h
  · cases h
  · split at h
    · cases h
    · exact (Except.ok.inj h).symm

theorem foldl_declareKeyword (names : List String) :
    names.foldl declareKeyword d = { d with keywords := d.keywords.extend names } := by
  induction names generalizing d with
  | nil => rfl
  | cons name names ih => rw [List.foldl_cons, ih, declareKeyword, OrderedSet.extend_cons]

theorem foldlM_declareNonterminal {names : List String}
    (h : names.foldlM declareNonterminal d = .ok d') :
    d' = { d with nonterminals := d.nonterminals.extend names } := by
  induction names generalizing d with
  | nil => exact (Except.ok.inj h).symm
  | cons name names ih =>
    obtain ⟨d₁, h₁, h⟩ := Except.bind_eq_ok.1 h
    rw [ih h, declareNonterminal_eq_ok h₁, OrderedSet.extend_cons]

def HasTidyRules (d : Draft) : Prop := ∀ e ∈ d.rules.entries, e.2.body.Tidy

theorem HasTidyRules.addProduction (h : d.HasTidyRules) (hm : m.Tidy)
    (hd : d.addProduction left m = .ok d') : d'.HasTidyRules := by
  obtain rfl := addProduction_eq_ok hd
  refine OrderedMap.forall_alter (P := fun r : RightSide ↦ r.body.Tidy) h hm fun r hr ↦ ?_
  exact Automaton.tidy_union hr hm

theorem HasTidyRules.addGoal {lookahead : List String} (h : d.HasTidyRules) (hm : m.Tidy)
    (hd : d.addGoal left m lookahead = .ok d') : d'.HasTidyRules := by
  obtain ⟨d₁, h₁, rfl⟩ := addGoal_eq_ok hd
  have hrules := h.addProduction hm h₁
  exact OrderedMap.forall_alter (P := fun r : RightSide ↦ r.body.Tidy) hrules hm fun _ hr ↦ hr

end Draft

namespace Scope.Describes

variable {s : Scope} {d d' : Draft} {x : Definition} {name left : String} {m : Automaton}
  {L : Language Label}

theorem of_eq (h : s.Describes d) (hkind : d'.kind = d.kind) (hmacros : d'.macros = d.macros)
    (hnonterminals : ∀ n, n ∈ d'.nonterminals ↔ n ∈ d.nonterminals) : s.Describes d' := by
  refine ⟨h.kind_eq.trans hkind.symm, fun n ↦ ?_, fun n ↦ hmacros ▸ h.macros n⟩
  rw [h.isNonterminal_eq, Draft.isNonterminal, Draft.isNonterminal]
  exact decide_eq_decide.2 (hnonterminals n).symm

theorem addProduction (h : s.Describes d) (hleft : d.isNonterminal left)
    (hd : d.addProduction left m = .ok d') : s.Describes d' := by
  obtain rfl := Draft.addProduction_eq_ok hd
  refine h.of_eq rfl rfl fun n ↦ ?_
  rw [OrderedSet.insert_of_mem (of_decide_eq_true hleft)]

theorem addGoal {lookahead : List String} (h : s.Describes d) (hleft : d.isNonterminal left)
    (hd : d.addGoal left m lookahead = .ok d') : s.Describes d' := by
  obtain ⟨d₁, h₁, rfl⟩ := Draft.addGoal_eq_ok hd
  exact (h.addProduction hleft h₁).of_eq rfl rfl fun _ ↦ Iff.rfl

theorem defineMacro (h : s.Describes d) (hm : m.Denotes L) (hd : d.defineMacro name m = .ok d') :
    Describes { s with macros := fun n ↦ if n = name then some L else s.macros n } d' := by
  obtain rfl := Draft.defineMacro_eq_ok hd
  refine ⟨h.kind_eq, h.isNonterminal_eq, fun n ↦ ?_⟩
  dsimp only
  rw [OrderedMap.get?_insert]
  split
  · exact .some hm
  · exact h.macros n

theorem denotes (h : s.Describes d) {e : Expr} (hm : e.toAutomaton d = .ok m) :
    m.Denotes (e.language s) :=
  (Expr.succeedsIff_toAutomaton h e).of_eq_ok m hm

theorem addTo (h : s.Describes d) (ht : d.HasTidyRules) (hx : ∀ n ∈ x.declared, d.isNonterminal n)
    (hd : x.addTo d = .ok d') : (s.define x).Describes d' ∧ d'.HasTidyRules := by
  cases x with
  | nonterminals names => exact Except.ok.inj hd ▸ ⟨h, ht⟩
  | keywords names =>
    obtain rfl := Except.ok.inj hd
    rw [Draft.foldl_declareKeyword]
    exact ⟨h.of_eq rfl rfl fun _ ↦ Iff.rfl, ht⟩
  | abbreviation name body =>
    obtain ⟨m, hm, hd⟩ := Except.bind_eq_ok.1 hd
    rw [Except.mapError_eq_ok] at hd
    refine ⟨h.defineMacro (h.denotes hm) hd, ?_⟩
    obtain rfl := Draft.defineMacro_eq_ok hd
    exact ht
  | production left body =>
    obtain ⟨m, hm, hd⟩ := Except.bind_eq_ok.1 hd
    rw [Except.mapError_eq_ok] at hd
    exact ⟨h.addProduction (hx left List.mem_cons_self) hd, ht.addProduction (h.denotes hm).tidy hd⟩
  | goal left body lookahead =>
    obtain ⟨m, hm, hd⟩ := Except.bind_eq_ok.1 hd
    rw [Except.mapError_eq_ok] at hd
    exact ⟨h.addGoal (hx left List.mem_cons_self) hd, ht.addGoal (h.denotes hm).tidy hd⟩

end Scope.Describes

namespace Draft

variable {d d' : Draft} {kind : Kind} {l pre : List Definition} {g : Grammar} {s : Scope}

/-- The draft behind some of the definitions of a list, all of whose nonterminals are declared. -/
def after (kind : Kind) (l pre : List Definition) : Except ExprError Draft := do
  let d ← ((l.flatMap Definition.declared).foldlM declareNonterminal { kind }).mapError .grammar
  pre.foldlM Definition.addTo d

theorem exists_after (h : Grammar.define kind l = .ok g) :
    ∃ d, after kind l l = .ok d ∧ d.finish = .ok g := by
  obtain ⟨d₀, h₀, h⟩ := Except.bind_eq_ok.1 h
  obtain ⟨d, hd, h⟩ := Except.bind_eq_ok.1 h
  exact ⟨d, Except.bind_eq_ok.2 ⟨d₀, h₀, hd⟩, Except.mapError_eq_ok.1 h⟩

/-- The scope and the draft stay together over a list whose names are declared. -/
theorem describes_foldlM (h : s.Describes d) (ht : d.HasTidyRules)
    (hpre : ∀ x ∈ pre, ∀ n ∈ x.declared, s.isNonterminal n)
    (hd : pre.foldlM Definition.addTo d = .ok d') :
    (pre.foldl Scope.define s).Describes d' ∧ d'.HasTidyRules := by
  induction pre generalizing s d with
  | nil => exact Except.ok.inj hd ▸ ⟨h, ht⟩
  | cons x pre ih =>
    obtain ⟨d₁, h₁, hd⟩ := Except.bind_eq_ok.1 hd
    obtain ⟨hx, hpre⟩ := List.forall_mem_cons.1 hpre
    obtain ⟨h', ht'⟩ := h.addTo ht (fun n hn ↦ h.isNonterminal_eq n ▸ hx n hn) h₁
    rw [← s.isNonterminal_define x] at hpre
    exact ih h' ht' hpre hd

theorem describes_declared : (Scope.declared kind l).Describes
    { kind, nonterminals := (∅ : OrderedSet String).extend (l.flatMap Definition.declared) } := by
  refine ⟨rfl, fun n ↦ decide_eq_decide.2 ?_, fun n ↦ ?_⟩
  · simp
  · rw [OrderedMap.get?_empty]
    exact .none

theorem describes_after (hpre : pre <+: l) (h : after kind l pre = .ok d) :
    (Scope.after kind l pre).Describes d ∧ d.HasTidyRules := by
  obtain ⟨d₀, h₀, h⟩ := Except.bind_eq_ok.1 h
  obtain rfl := foldlM_declareNonterminal (Except.mapError_eq_ok.1 h₀)
  refine describes_foldlM describes_declared (fun _ he ↦ absurd he List.not_mem_nil)
    (fun x hx n hn ↦ ?_) h
  exact decide_eq_true (List.mem_flatMap_of_mem (hpre.subset hx) hn)

end Draft

/-- A definition list is walked from the front. An expression that stands behind some of its
definitions has an automaton exactly if it is well formed in their scope; the automaton accepts the
words of the expression, and all its states and transitions lie on accepting paths. -/
theorem Expr.denotation_toAutomaton {kind : Kind} {l pre : List Definition} {d : Draft}
    (hpre : pre <+: l) (h : Draft.after kind l pre = .ok d) (e : Expr) :
    ((∃ m, e.toAutomaton d = .ok m) ↔ e.WellFormed (Scope.after kind l pre)) ∧
      ∀ m, e.toAutomaton d = .ok m → m.language = e.language (Scope.after kind l pre) ∧ m.Closed ∧
        ∀ i < m.size, m.Useful i := by
  have hs := succeedsIff_toAutomaton (Draft.describes_after hpre h).1 e
  refine ⟨hs.exists_iff, fun m hm ↦ ?_⟩
  have hd := hs.of_eq_ok m hm
  exact ⟨hd.language_eq, hd.tidy.closed, hd.tidy.useful⟩

namespace Letters

def definitions : List Definition :=
  [.abbreviation "letter" (.range (.literal "a") (.literal "c")),
    .goal "name" (.plus (.reference "letter")) [" "]]

def attributes : Attributes := .defaultFor .scanner false

def scope : Scope := .after .scanner definitions (definitions.take 1)

theorem mem_language_letter {w : List Label} : w ∈ (Expr.reference "letter").language scope ↔
    ∃ c : Char, 'a' ≤ c ∧ c ≤ 'c' ∧ w = [.symbol c.toString attributes] := by
  constructor
  · intro hw
    obtain ⟨lo, hi, hb, c, hc, hc', rfl⟩ := hw
    have heq := Expr.rangeBounds?_eq_some.2 hb
    obtain ⟨rfl, rfl⟩ := Prod.mk.inj (Option.some.inj heq)
    exact ⟨c, hc, hc', rfl⟩
  · intro hw
    obtain ⟨c, hc, hc', rfl⟩ := hw
    exact ⟨_, _, .characters 'a' 'c', c, hc, hc', rfl⟩

theorem mem_language_b {w : List Label} :
    w ∈ (Expr.literal "b").language scope ↔ w = [.symbol "b" attributes] := Iff.rfl

theorem wellFormed_difference :
    (Expr.difference (.reference "letter") (.literal "b")).WellFormed scope := by
  refine ⟨rfl, trivial, fun w hw l hl ↦ ?_, fun w hw l hl ↦ ?_⟩
  · obtain ⟨c, -, -, rfl⟩ := mem_language_letter.1 hw
    obtain rfl := List.mem_singleton.1 hl
    rfl
  · obtain rfl := mem_language_b.1 hw
    obtain rfl := List.mem_singleton.1 hl
    rfl

theorem not_wellFormed_action :
    ¬ (Expr.difference (.reference "letter") (.action "drop" [] false)).WellFormed scope := by
  intro h
  obtain ⟨-, -, -, h⟩ := h
  have hw : [Label.action "drop" [] false] ∈ (Expr.action "drop" [] false).language scope := rfl
  cases h _ hw _ List.mem_cons_self

/-- The letters without one of them have an automaton, which reads the others; the letters without
an action have none. -/
theorem denotation_difference : ∃ d, Draft.after .scanner definitions (definitions.take 1) = .ok d ∧
    (∃ m, (Expr.difference (.reference "letter") (.literal "b")).toAutomaton d = .ok m ∧
      [.symbol "a" attributes] ∈ m.language ∧ [.symbol "b" attributes] ∉ m.language) ∧
    ¬ ∃ m, (Expr.difference (.reference "letter") (.action "drop" [] false)).toAutomaton d =
      .ok m := by
  have hpre := definitions.take_prefix 1
  refine ⟨_, rfl, ?_, ?_⟩
  · obtain ⟨hiff, hspec⟩ :=
      Expr.denotation_toAutomaton hpre rfl (.difference (.reference "letter") (.literal "b"))
    obtain ⟨m, hm⟩ := hiff.2 wellFormed_difference
    have ha : [.symbol "a" attributes] ∉ (Expr.literal "b").language scope :=
      fun ha ↦ absurd (mem_language_b.1 ha) (by decide)
    refine ⟨m, hm, ?_⟩
    rw [(hspec m hm).1]
    exact ⟨⟨mem_language_letter.2 ⟨'a', by decide, by decide, rfl⟩, ha⟩,
      fun hb ↦ hb.2 (mem_language_b.2 rfl)⟩
  · obtain ⟨hiff, -⟩ :=
      Expr.denotation_toAutomaton hpre rfl
        (.difference (.reference "letter") (.action "drop" [] false))
    exact mt hiff.1 not_wellFormed_action

end Letters

end RightPart
