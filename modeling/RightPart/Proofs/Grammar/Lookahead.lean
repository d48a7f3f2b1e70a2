import RightPart.Proofs.Grammar.Analysis

namespace RightPart

namespace Grammar

def Begins (g : Grammar) (l : Label) (n : String) : Prop :=
  (g.isReadTerminal l ∧ n = l.name) ∨
    g.isNonterminalLabel l ∧ ∃ id q, g.productionFor? l.name = some (id, q) ∧ n ∈ q.first

def MayFollow (g : Grammar) (p : Production) (i : Nat) (n : String) : Prop :=
  ∃ j, p.body.SilentTo g.nullables i j ∧
    ((∃ t ∈ p.body.transitionsFrom j, g.Begins t.label n) ∨ p.body.isFinalAt j ∧ n ∈ p.follow)

/-- What the analysis has found is closed under the rules that it applies. -/
structure Analyzed (g : Grammar) : Prop where
  nullable : ∀ id p, g.productions.get? id = some p → p.body.acceptsSilently g.nullables →
    p.left ∈ g.nullables
  first : ∀ id p, g.productions.get? id = some p → ∀ i ∈ p.body.initials, ∀ j,
    p.body.SilentTo g.nullables i j → ∀ t ∈ p.body.transitionsFrom j, ∀ n, g.Begins t.label n →
    n ∈ p.first
  follow : ∀ id p, g.productions.get? id = some p → ∀ i, ∀ t ∈ p.body.transitionsFrom i,
    g.isNonterminalLabel t.label → ∀ id' q, g.productionFor? t.label.name = some (id', q) →
    ∀ n, g.MayFollow p t.target n → n ∈ q.follow
  lookahead : ∀ id p, g.productions.get? id = some p → ∀ names, p.lookahead = some names →
    ∀ n ∈ names, n ∈ p.follow

variable {g : Grammar}

theorem get?_analyze {id : ProductionId} {p : Production}
    (h : g.analyze.productions.get? id = some p) :
    ∃ p₀, g.productions.get? id = some p₀ ∧ p.left = p₀.left ∧ p.body = p₀.body ∧
      p.lookahead = p₀.lookahead ∧ p.first = (g.findFirsts g.findNullables).members p.left ∧
      p.follow = (g.findFollows g.findNullables (g.findFirsts g.findNullables)
        (g.within_findFirsts g.findNullables)).members p.left := by
  have he := OrderedMap.get?_eq_some.1 h
  rw [analyze, OrderedMap.entries_mapValues] at he
  obtain ⟨⟨id', p₀⟩, he₀, heq⟩ := List.mem_map.1 he
  obtain ⟨rfl, rfl⟩ := Prod.mk.inj heq
  exact ⟨p₀, OrderedMap.get?_eq_some.2 he₀, rfl, rfl, rfl, rfl, rfl⟩

theorem mem_labelFirst_of_begins {l : Label} {n : String} (h : g.analyze.Begins l n) :
    n ∈ g.labelFirst (g.findFirsts g.findNullables) l := by
  rcases h with h | ⟨hl, id, q, hq, hn⟩
  · exact mem_labelFirst.2 (.inl h)
  · obtain ⟨hq, hname⟩ := productionFor?_eq_some hq
    obtain ⟨q₀, -, -, -, -, hfirst, -⟩ := get?_analyze hq
    refine mem_labelFirst.2 (.inr ⟨hl, ?_⟩)
    rw [← hname, ← hfirst]
    exact hn

theorem analyzed_analyze : g.analyze.Analyzed := by
  refine ⟨fun id p hp h ↦ ?_, fun id p hp i hi j hij t ht n hn ↦ ?_,
    fun id p hp i t ht hl id' q hq n hn ↦ ?_, fun id p hp names hl n hn ↦ ?_⟩
  · obtain ⟨p₀, hp₀, hleft, hbody, -⟩ := get?_analyze hp
    rw [hleft]
    exact left_mem_findNullables (OrderedMap.snd_mem_values (OrderedMap.get?_eq_some.1 hp₀))
      (hbody ▸ h)
  · obtain ⟨p₀, hp₀, hleft, hbody, -, hfirst, -⟩ := get?_analyze hp
    rw [hfirst, hleft]
    refine mem_findFirsts (OrderedMap.snd_mem_values (OrderedMap.get?_eq_some.1 hp₀))
      (mem_bodyFirst.2 ?_)
    exact ⟨i, hbody ▸ hi, j, hbody ▸ hij, t, hbody ▸ ht, mem_labelFirst_of_begins hn⟩
  · obtain ⟨p₀, hp₀, hleft, hbody, -, -, hfollow⟩ := get?_analyze hp
    obtain ⟨hq, hname⟩ := productionFor?_eq_some hq
    obtain ⟨q₀, -, -, -, -, -, hqfollow⟩ := get?_analyze hq
    have hv := OrderedMap.snd_mem_values (OrderedMap.get?_eq_some.1 hp₀)
    have hc : (p₀, t) ∈ g.calls := mem_calls.2 ⟨hv, i, hbody ▸ ht, hl⟩
    rw [hqfollow, hname]
    refine mem_findFollows hc (mem_following.2 ?_)
    obtain ⟨j, hj, h⟩ := hn
    refine ⟨j, hbody ▸ hj, h.imp ?_ ?_⟩
    · intro h
      obtain ⟨t', ht', hb⟩ := h
      exact ⟨t', hbody ▸ ht', mem_labelFirst_of_begins hb⟩
    · intro h
      exact ⟨hbody ▸ h.1, hleft ▸ hfollow ▸ h.2⟩
  · obtain ⟨p₀, hp₀, hleft, -, hla, -, hfollow⟩ := get?_analyze hp
    have hgoal : (id, p₀) ∈ g.goals := mem_goals.2 ⟨hp₀, by simp [Production.isGoal, ← hla, hl]⟩
    rw [hfollow, hleft]
    exact mem_findFollows_of_lookahead hgoal (hla ▸ hl) hn

theorem Expands.silentTo (ha : g.Analyzed) {w : List Label} {x : List String} (h : g.Expands w x)
    (hx : x = []) {m : Automaton} {i j : Nat} (hw : m.Path i w j) : m.SilentTo g.nullables i j := by
  induction h generalizing m i j with
  | nil =>
    cases hw
    exact .refl
  | silent hl _ ih =>
    cases hw with
    | cons ht hw =>
      exact (Automaton.SilentTo.one ht (Label.isSilent_iff.2 (.inl hl))).trans (ih hx hw)
  | terminal => cases hx
  | @nonterminal l w v x y id q hl hn hq hv _ _ ihv ihw =>
    obtain ⟨hy, hx⟩ := List.append_eq_nil_iff.1 hx
    obtain ⟨i', hi', j', hp, hf⟩ := hv
    obtain ⟨hid, hname⟩ := productionFor?_eq_some hq
    have hnull :=
      ha.nullable id q hid (Automaton.acceptsSilently_iff.2 ⟨i', hi', j', ihv hy hp, hf⟩)
    cases hw with
    | cons ht hw =>
      exact (Automaton.SilentTo.one ht (Label.isSilent_iff.2 (.inr (hname ▸ hnull)))).trans
        (ihw hx hw)

theorem Expands.exists_begins (ha : g.Analyzed) {w : List Label} {x : List String}
    (h : g.Expands w x) {n : String} {x' : List String} (hx : x = n :: x') {m : Automaton}
    {i j : Nat} (hw : m.Path i w j) :
    ∃ k, m.SilentTo g.nullables i k ∧ ∃ t ∈ m.transitionsFrom k, g.Begins t.label n := by
  induction h generalizing m i j x' with
  | nil => cases hx
  | silent hl _ ih =>
    cases hw with
    | cons ht hw =>
      obtain ⟨k, hk, h⟩ := ih hx hw
      exact ⟨k, (Automaton.SilentTo.one ht (Label.isSilent_iff.2 (.inl hl))).trans hk, h⟩
  | terminal hl _ _ =>
    cases hw with
    | cons ht hw => exact ⟨i, .refl, _, ht, .inl ⟨hl, (List.cons.inj hx).1.symm⟩⟩
  | @nonterminal l w v x y id q hl hn hq hv hy _ ihv ihw =>
    obtain ⟨i', hi', j', hp, hf⟩ := hv
    cases hw with
    | @cons _ _ t _ ht hw =>
      cases y with
      | nil =>
        obtain ⟨k, hk, h⟩ := ihw hx hw
        have hone : g.Expands [t.label] [] :=
          Derives.expands ⟨id, q, v, hq, ⟨i', hi', j', hp, hf⟩, hy⟩ hl hn
        exact ⟨k, (hone.silentTo ha rfl (.one ht)).trans hk, h⟩
      | cons n' y =>
        obtain ⟨rfl, -⟩ := List.cons.inj hx
        obtain ⟨k, hk, t', ht', hb⟩ := ihv rfl hp
        have hmem := ha.first id q (productionFor?_eq_some hq).1 i' hi' k hk t' ht' _ hb
        exact ⟨i, .refl, t, ht, .inr ⟨isNonterminalLabel_of_isRead hl hn, id, q, hq, hmem⟩⟩

/-- What comes next before a way through a right part is the start of its text, or what comes next
after it. -/
theorem Expands.mayFollow (ha : g.Analyzed) {p : Production} {w : List Label} {x : List String}
    (h : g.Expands w x) {i j : Nat} (hw : p.body.Path i w j) {n : String} (hn : g.MayFollow p j n)
    {n' : String} {rest rest' : List String} (hx : x ++ n :: rest = n' :: rest') :
    g.MayFollow p i n' := by
  cases x with
  | nil =>
    obtain ⟨rfl, -⟩ := List.cons.inj hx
    obtain ⟨k, hk, hb⟩ := hn
    exact ⟨k, (h.silentTo ha rfl hw).trans hk, hb⟩
  | cons n'' x =>
    obtain ⟨rfl, -⟩ := List.cons.inj hx
    obtain ⟨k, hk, hb⟩ := h.exists_begins ha rfl hw
    exact ⟨k, hk, .inl hb⟩

theorem Expands.exists_mayFollow (ha : g.Analyzed) {p : Production} {w : List Label}
    {x : List String} (h : g.Expands w x) {i j : Nat} (hw : p.body.Path i w j) {n : String}
    (hn : g.MayFollow p j n) (rest : List String) :
    ∃ n' rest', x ++ n :: rest = n' :: rest' ∧ g.MayFollow p i n' := by
  have hne : x ++ n :: rest ≠ [] := List.append_ne_nil_of_right_ne_nil x (List.cons_ne_nil n rest)
  obtain ⟨n', rest', hx⟩ := List.exists_cons_of_ne_nil hne
  exact ⟨n', rest', hx, h.mayFollow ha hw hn hx⟩

theorem mem_itemFollow {i : Item} {p : Production} (hp : g.productions.get? i.production = some p)
    {n : String} (h : g.MayFollow p i.state n) : n ∈ g.itemFollow i := by
  obtain ⟨j, hj, h⟩ := h
  unfold itemFollow stateFollow
  rw [hp]
  refine List.mem_flatMap.2 ⟨j, Automaton.mem_silentClosure.2 ⟨_, List.mem_singleton.2 rfl, hj⟩, ?_⟩
  rw [List.mem_append]
  rcases h with ⟨t, ht, hb⟩ | ⟨hf, hn⟩
  · refine .inl (List.mem_flatMap.2 ⟨t, ht, ?_⟩)
    rcases hb with ⟨hl, rfl⟩ | ⟨hl, id, q, hq, hn⟩
    · obtain ⟨hread, hnt⟩ : t.label.isRead ∧ g.isNonterminal t.label.name = false := by
        simpa [isReadTerminal] using hl
      simp [Label.isAction_of_isRead hread, hnt]
    · obtain ⟨hact, hnt⟩ : t.label.isAction = false ∧ g.isNonterminal t.label.name := by
        simpa [isNonterminalLabel] using hl
      simpa [hact, hnt, first?, hq, ← OrderedSet.mem_def] using hn
  · exact .inr (by simpa [hf, ← OrderedSet.mem_def] using hn)

end Grammar

theorem Draft.analyzed_of_finish {d : Draft} {g : Grammar} (h : d.finish = .ok g) : g.Analyzed := by
  obtain ⟨g₀, rfl, -⟩ := finish_eq_ok h
  exact Grammar.analyzed_analyze

end RightPart
