import RightPart.Proofs.Expr.Substitution
import RightPart.Proofs.Grammar.Session

namespace RightPart

namespace Definition

def abbreviated : Definition → List String
  | abbreviation name _ => [name]
  | _ => []

def mapBody (f : Expr → Expr) : Definition → Definition
  | nonterminals names => nonterminals names
  | keywords names => keywords names
  | abbreviation name body => abbreviation name (f body)
  | production left body => production left (f body)
  | goal left body lookahead => goal left (f body) lookahead

def inline (name : String) (body : Expr) : Definition → Definition :=
  mapBody (Expr.inline name body)

@[simp] theorem declared_mapBody (f : Expr → Expr) (x : Definition) :
    (x.mapBody f).declared = x.declared := by
  cases x <;> rfl

/-- What a definition leaves as it is in a draft: what symbols stand for, except the macro
that it defines. -/
structure Respects (x : Definition) (d d' : Draft) : Prop where
  kind_eq : d'.kind = d.kind
  isNonterminal_eq : ∀ n, d'.isNonterminal n = d.isNonterminal n
  macros : ∀ n m, d.macros.get? n = some m → d'.macros.get? n = some m
  others : ∀ n, n ∉ x.abbreviated → d'.macros.get? n = d.macros.get? n

variable {d d' : Draft} {x : Definition} {l : List Definition} {e : Expr} {m : Automaton}

theorem Respects.of_eq (hkind : d'.kind = d.kind)
    (hnonterminals : ∀ n, n ∈ d'.nonterminals ↔ n ∈ d.nonterminals)
    (hmacros : d'.macros = d.macros) : x.Respects d d' :=
  ⟨hkind, fun n ↦ decide_eq_decide.2 (hnonterminals n), fun _ _ h ↦ hmacros ▸ h,
    fun _ _ ↦ hmacros ▸ rfl⟩

theorem respects_addTo (hx : ∀ n ∈ x.declared, d.isNonterminal n) (h : x.addTo d = .ok d') :
    x.Respects d d' := by
  cases x with
  | nonterminals names => exact Except.ok.inj h ▸ .of_eq rfl (fun _ ↦ Iff.rfl) rfl
  | keywords names =>
    obtain rfl := Except.ok.inj h
    rw [Draft.foldl_declareKeyword]
    exact .of_eq rfl (fun _ ↦ Iff.rfl) rfl
  | abbreviation name body =>
    obtain ⟨m, -, h⟩ := Except.bind_eq_ok.1 h
    obtain ⟨hfree, -⟩ := Draft.hasMacro_of_defineMacro (Except.mapError_eq_ok.1 h)
    obtain rfl := Draft.defineMacro_eq_ok (Except.mapError_eq_ok.1 h)
    have hother (n : String) (hn : n ≠ name) : (d.macros.insert name m).get? n = d.macros.get? n :=
      OrderedMap.get?_alter_of_ne _ hn _
    refine ⟨rfl, fun _ ↦ rfl, fun n m' hm' ↦ (hother n ?_).trans hm', fun n hn ↦ hother n ?_⟩
    · rintro rfl
      exact of_decide_eq_false hfree (OrderedMap.isSome_get?.1 (hm' ▸ rfl))
    · exact List.ne_of_not_mem_cons hn
  | production left body =>
    obtain ⟨m, -, h⟩ := Except.bind_eq_ok.1 h
    obtain rfl := Draft.addProduction_eq_ok (Except.mapError_eq_ok.1 h)
    have hleft := of_decide_eq_true (hx left List.mem_cons_self)
    exact .of_eq rfl (fun n ↦ by rw [OrderedSet.insert_of_mem hleft]) rfl
  | goal left body lookahead =>
    obtain ⟨m, -, h⟩ := Except.bind_eq_ok.1 h
    obtain ⟨d₁, h₁, rfl⟩ := Draft.addGoal_eq_ok (Except.mapError_eq_ok.1 h)
    obtain rfl := Draft.addProduction_eq_ok h₁
    have hleft := of_decide_eq_true (hx left List.mem_cons_self)
    exact .of_eq rfl (fun n ↦ by rw [OrderedSet.insert_of_mem hleft]) rfl

theorem isNonterminal_foldlM_addTo (hl : ∀ n ∈ l.flatMap declared, d.isNonterminal n)
    (h : l.foldlM addTo d = .ok d') (n : String) : d'.isNonterminal n = d.isNonterminal n := by
  induction l generalizing d with
  | nil => exact Except.ok.inj h ▸ rfl
  | cons x l ih =>
    obtain ⟨d₁, h₁, h⟩ := Except.bind_eq_ok.1 h
    rw [List.flatMap_cons, List.forall_mem_append] at hl
    have hx := respects_addTo hl.1 h₁
    exact (ih (fun n hn ↦ hx.isNonterminal_eq n ▸ hl.2 n hn) h).trans (hx.isNonterminal_eq n)

theorem Respects.toAutomaton (h : x.Respects d d') (he : e.toAutomaton d = .ok m)
    (hfree : ∀ n ∈ e.symbols, n ∉ x.abbreviated) : e.toAutomaton d' = .ok m := by
  have hsymbol (n : String) (hn : n ∈ e.symbols) :
      Expr.symbolAutomaton d' n = Expr.symbolAutomaton d n := by
    rw [Expr.symbolAutomaton, Expr.symbolAutomaton, h.others n (hfree n hn), Draft.symbol,
      Draft.symbol, Draft.label, Draft.label, h.kind_eq, h.isNonterminal_eq]
  obtain ⟨m', hm', rfl⟩ := Expr.matched_toAutomaton h.kind_eq hsymbol h.macros m he
  exact hm'

theorem matched_mapBody {f : Expr → Expr}
    (hf : ∀ e, Matched Eq (e.toAutomaton d) ((f e).toAutomaton d)) :
    Matched Eq (x.addTo d) ((x.mapBody f).addTo d) := by
  cases x with
  | nonterminals names => exact .refl _
  | keywords names => exact .refl _
  | abbreviation name body => exact (hf body).bind_same _
  | production left body => exact (hf body).bind_same _
  | goal left body lookahead => exact (hf body).bind_same _

variable {name : String} {body : Expr}

/-- The macro and its body stay interchangeable all the way, as no symbol of the body
gets a new meaning. -/
theorem matched_foldlM_inline (hname : d.macros.get? name = some m)
    (hbody : body.toAutomaton d = .ok m) (hfree : ∀ n ∈ body.symbols, n ∉ l.flatMap abbreviated)
    (hl : ∀ n ∈ l.flatMap declared, d.isNonterminal n) :
    Matched Eq (l.foldlM addTo d) ((l.map (inline name body)).foldlM addTo d) := by
  induction l generalizing d with
  | nil => exact .refl _
  | cons x l ih =>
    rw [List.map_cons, List.foldlM_cons, List.foldlM_cons]
    simp only [List.flatMap_cons, List.mem_append, not_or] at hfree
    rw [List.flatMap_cons, List.forall_mem_append] at hl
    refine (matched_mapBody (Expr.matched_inline hname hbody)).bind_eq fun d' hd' ↦ ?_
    have hx := respects_addTo hl.1 hd'
    exact ih (hx.macros name m hname) (hx.toAutomaton hbody fun n hn ↦ (hfree n hn).1)
      (fun n hn ↦ (hfree n hn).2) fun n hn ↦ hx.isNonterminal_eq n ▸ hl.2 n hn

theorem matched_define_inline {kind : Kind} {l₁ l₂ : List Definition}
    (hfree : ∀ n ∈ body.symbols, n ∉ (abbreviation name body :: l₂).flatMap abbreviated) :
    Matched Eq (Grammar.define kind (l₁ ++ .abbreviation name body :: l₂))
      (Grammar.define kind (l₁ ++ .abbreviation name body :: l₂.map (inline name body))) := by
  have hdeclared : (l₁ ++ abbreviation name body :: l₂.map (inline name body)).flatMap declared =
      (l₁ ++ abbreviation name body :: l₂).flatMap declared := by
    simp only [List.flatMap_append, List.flatMap_cons, List.flatMap_map, inline, declared_mapBody]
  rw [Grammar.define, Grammar.define, hdeclared]
  refine (Matched.refl _).bind_eq fun d₀ h₀ ↦ Matched.bind_same ?_ _
  have hl : ∀ n ∈ (l₁ ++ abbreviation name body :: l₂).flatMap declared, d₀.isNonterminal n := by
    obtain rfl := Draft.foldlM_declareNonterminal (Except.mapError_eq_ok.1 h₀)
    exact fun n hn ↦ decide_eq_true (OrderedSet.mem_extend.2 (.inr hn))
  rw [List.flatMap_append, List.forall_mem_append] at hl
  rw [List.foldlM_append, List.foldlM_append]
  refine (Matched.refl _).bind_eq fun d₁ h₁ ↦ ?_
  rw [List.foldlM_cons, List.foldlM_cons]
  refine (Matched.refl _).bind_eq fun d₂ h₂ ↦ ?_
  simp only [List.flatMap_cons, List.mem_append, not_or] at hfree
  obtain ⟨m, hm, hdefine⟩ := Except.bind_eq_ok.1 h₂
  have hx : (abbreviation name body).Respects d₁ d₂ := respects_addTo nofun h₂
  obtain rfl := Draft.defineMacro_eq_ok (Except.mapError_eq_ok.1 hdefine)
  refine matched_foldlM_inline (m := m) ?_ (hx.toAutomaton hm fun n hn ↦ (hfree n hn).1)
    (fun n hn ↦ (hfree n hn).2) fun n hn ↦ ?_
  · exact OrderedMap.get?_alter_self _ _ _
  · exact (isNonterminal_foldlM_addTo hl.1 h₁ n).trans (hl.2 n hn)

end Definition

/-- A macro may be replaced by its body wherever it is referred to: the grammar is the same, to the
numbers of states and the order in which things are in it. The body is read where it comes to stand,
so it must not use as a symbol the name of the macro itself or of one that comes later. -/
theorem Grammar.define_inline {kind : Kind} {l₁ l₂ : List Definition} {name : String} {body : Expr}
    {g : Grammar} (h : define kind (l₁ ++ .abbreviation name body :: l₂) = .ok g)
    (hfree : ∀ n ∈ body.symbols,
      n ∉ (Definition.abbreviation name body :: l₂).flatMap Definition.abbreviated) :
    define kind (l₁ ++ .abbreviation name body :: l₂.map (Definition.inline name body)) =
      .ok g := by
  obtain ⟨g', hg', rfl⟩ := Definition.matched_define_inline hfree g h
  exact hg'

namespace Sheets

/-- The body of a macro of the same name. The name is read as a symbol here, and as the macro where
the body is copied to. -/
def sheet : Expr := .sequence [.symbol "sheet", .symbol "end"]

def definitions (body : Expr) : List Definition :=
  [.abbreviation "sheet" sheet, .goal "book" body [Grammar.endOfInput]]

def sizes (l : List Definition) : Option (List Nat) :=
  (Grammar.define .parser l).toOption.map fun g ↦ g.productions.values.map (·.body.size)

theorem not_define_inline_of_own_name :
    ¬ ∀ (kind : Kind) (l₁ l₂ : List Definition) (name : String) (body : Expr) (g : Grammar),
      Grammar.define kind (l₁ ++ .abbreviation name body :: l₂) = .ok g →
      (∀ n ∈ body.symbols, n ∉ l₂.flatMap Definition.abbreviated) →
      Grammar.define kind (l₁ ++ .abbreviation name body :: l₂.map (Definition.inline name body)) =
        .ok g := by
  intro h
  have hreferred : sizes (definitions (.symbol "sheet")) = some [3] := by decide +kernel
  have hinlined : sizes (definitions sheet) = some [4] := by decide +kernel
  cases hg : Grammar.define .parser (definitions (.symbol "sheet")) with
  | error e => rw [sizes, hg] at hreferred; cases hreferred
  | ok g =>
    have hg' : Grammar.define .parser (definitions sheet) = .ok g :=
      h .parser [] _ _ _ g hg (by decide)
    rw [sizes, hg', ← hg] at hinlined
    cases hreferred.symm.trans hinlined

end Sheets

namespace Arguments

def definitions (argument : Expr) : List Definition :=
  [.abbreviation "arguments"
      (.sequence [.symbol "value", .star (.sequence [.literal ",", .symbol "value"])]),
    .abbreviation "call" (.sequence [.symbol "name", .literal "(", argument, .literal ")"]),
    .production "value" (.alternation [.symbol "name", .reference "call"]),
    .goal "file" (.attributed (.symbol "call") ["node"]) [Grammar.endOfInput]]

theorem define_inline_arguments :
    ∃ g, Grammar.define .parser (definitions (.symbol "arguments")) = .ok g ∧
      Grammar.define .parser (definitions
        (.sequence [.symbol "value", .star (.sequence [.literal ",", .symbol "value"])])) =
          .ok g := by
  cases h : Grammar.define .parser (definitions (.symbol "arguments")) with
  | error e =>
    have hsucceeds : (Grammar.define .parser (definitions (.symbol "arguments"))).isOk := by
      decide +kernel
    rw [h] at hsucceeds
    cases hsucceeds
  | ok g => exact ⟨g, rfl, @Grammar.define_inline .parser [] _ _ _ g h (by decide)⟩

end Arguments

end RightPart
