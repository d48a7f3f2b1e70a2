import RightPart.Proofs.Tables.Row

namespace RightPart

namespace SymbolSet

def symbols : SymbolSet → List String
  | text s => s.toList.map String.singleton
  | codes l => l.map fun n ↦ String.singleton (.ofNat n)
  | names l => l

theorem eq_singleton_of_singleChar? {s : String} {c : Char} (h : singleChar? s = some c) :
    s = String.singleton c := by
  unfold singleChar? at h
  split at h
  · rename_i hs
    rw [← String.ofList_toList (s := s), hs, Option.some.inj h]
    rfl
  · cases h

theorem eq_map_of_mapM_singleChar? {l : List String} {cs : List Char}
    (h : l.mapM singleChar? = some cs) : l = cs.map String.singleton := by
  induction l generalizing cs with
  | nil =>
    obtain rfl := Option.some.inj h
    rfl
  | cons s l ih =>
    rw [List.mapM_cons] at h
    obtain ⟨c, hc, h⟩ := Option.bind_eq_some_iff.1 h
    obtain ⟨cs', hcs, h⟩ := Option.bind_eq_some_iff.1 h
    obtain rfl := Option.some.inj h
    rw [List.map_cons, ← ih hcs, ← eq_singleton_of_singleChar? hc]

/-- A set gives back the symbols that it was made of, whichever way it is written. -/
theorem symbols_ofNames (l : List String) : (ofNames l).symbols = l := by
  unfold ofNames
  split
  · rename_i cs hcs
    rw [eq_map_of_mapM_singleChar? hcs]
    split
    · rw [symbols, List.map_map]
      exact List.map_congr_left fun c _ ↦ congrArg String.singleton (Char.ofNat_toNat c)
    · rw [symbols, String.toList_ofList]
  · rfl

end SymbolSet

/-- Moves that take entries together which agree in all but the symbol. Nothing is lost, and the
moves and their symbols come in the order in which the entries do. -/
structure Grouped (moves : List (SymbolSet × String × Nat)) (l : List (String × String × Nat)) :
    Prop where
  perm : (moves.flatMap fun m ↦ m.1.symbols.map (·, m.2)).Perm l
  nodup : (moves.map Prod.snd).Nodup
  order : moves.map Prod.snd = (l.map Prod.snd).eraseDups
  symbols : ∀ m ∈ moves, m.1.symbols = (l.filter (·.2 = m.2)).map Prod.fst

theorem grouped_group (l : List (String × String × Nat)) :
    Grouped ((OrderedMap.group (l.map fun x ↦ ((⟨x.2.1, x.2.2⟩ : Continuation), x.1))).entries.map
      fun e ↦ (.ofNames e.2, e.1.attributes, e.1.target)) l := by
  let split : String × String × Nat → Continuation × String := fun x ↦ (⟨x.2.1, x.2.2⟩, x.1)
  let pair : Continuation → String × Nat := fun k ↦ (k.attributes, k.target)
  have hpair : Function.Injective pair := fun k k' h ↦ by
    obtain ⟨hattributes, htarget⟩ := Prod.mk.inj h
    cases k; cases k'
    exact congrArg₂ _ hattributes htarget
  have horder : ((l.map split).map Prod.fst).eraseDups.map pair = (l.map Prod.snd).eraseDups := by
    rw [← eraseDups_map hpair, List.map_map, List.map_map]
    rfl
  have hvalues : ∀ k, valuesAt (l.map split) k = (l.filter (·.2 = pair k)).map Prod.fst := by
    intro k
    rw [valuesAt, List.filter_map, List.map_map]
    refine congrArg _ (List.filter_congr fun x _ ↦ ?_)
    exact decide_eq_decide.2 hpair.eq_iff.symm
  refine ⟨?_, ?_, ?_, fun m hm ↦ ?_⟩
  · have hentries := perm_flatMap_valuesAt (l := l.map split) (nodup_eraseDups _)
      fun e he ↦ List.mem_eraseDups.2 (List.mem_map_of_mem he)
    have hjoin : (l.map split).map (fun e ↦ (e.2, pair e.1)) = l := by
      rw [List.map_map]
      exact List.map_id l
    conv_rhs => rw [← hjoin]
    refine .trans (.of_eq ?_) (hentries.map fun e ↦ (e.2, pair e.1))
    rw [OrderedMap.entries_group, List.map_map, List.flatMap_map, List.map_flatMap]
    refine List.flatMap_congr fun k _ ↦ ?_
    rw [List.map_map]
    exact congrArg (List.map fun name ↦ (name, pair k)) (SymbolSet.symbols_ofNames _)
  · rw [OrderedMap.entries_group, List.map_map, List.map_map]
    exact (nodup_eraseDups _).map hpair
  · rw [OrderedMap.entries_group, List.map_map, List.map_map, ← horder]
    rfl
  · obtain ⟨e, he, rfl⟩ := List.mem_map.1 hm
    rw [SymbolSet.symbols_ofNames, (OrderedMap.mem_entries_group.1 he).2, hvalues]

namespace Tables

variable {t : Tables}

def move (t : Tables) (e : Label × Target) : String × String × Nat :=
  (e.1.name, e.1.attributeText, t.number e.2)

/-- What a row says of the state that it is for. -/
def Tells (t : Tables) : Row → Prop
  | .scanner id moves => t.kind.isScanner ∧ ∃ i s, t.readaheads[i]? = some s ∧
      id = t.number (.readahead i) ∧ Grouped moves (s.transitions.map t.move)
  | .readahead id moves => ¬ t.kind.isScanner ∧ ∃ i s, t.readaheads[i]? = some s ∧
      id = t.number (.readahead i) ∧ moves = s.transitions.map t.move
  | .readback id moves => ∃ i s, t.readbacks[i]? = some s ∧ id = t.number (.readback i) ∧
      moves = s.transitions.map fun e ↦
        ((e.1.label.name, t.number (.readahead e.1.readahead)), e.1.label.attributeText,
          t.number e.2)
  | .reduce id nonterminal restarts => ∃ i s, t.reduces[i]? = some s ∧ id = t.number (.reduce i) ∧
      nonterminal = s.nonterminal ∧ restarts = s.restarts.map fun r ↦
        (t.number (.readahead r.source), r.label.attributeText, t.number (.readahead r.target))
  | .semantic id action arguments target => ∃ i s, t.semantics.toList[i]? = some s ∧
      id = t.number (.semantic i) ∧ action = s.action.name ∧ arguments = s.action.arguments ∧
      target = t.number (.readahead s.target)
  | .accept id => t.hasAccept ∧ id = t.number .accept

/-- Different states have different numbers, as the numbers of the kinds of states do
not overlap. -/
theorem number_injective {a b : Target} (ha : t.Has a) (hb : t.Has b)
    (h : t.number a = t.number b) : a = b := by
  cases a <;> cases b <;> simp only [number, Has, Target.readahead.injEq, Target.readback.injEq,
    Target.reduce.injEq, Target.semantic.injEq, reduceCtorEq] at h ha hb ⊢ <;> omega

theorem tells_of_mem_rows {r : Row} (hr : r ∈ t.rows) : t.Tells r := by
  rcases mem_rows.1 hr with
    ⟨s, i, hs, hr⟩ | ⟨s, i, hs, rfl⟩ | ⟨s, i, hs, rfl⟩ | ⟨s, i, hs, rfl⟩ | ⟨haccept, rfl⟩
  · split at hr <;> subst hr
    · have hgrouped := grouped_group (s.transitions.map t.move)
      rw [List.map_map] at hgrouped
      exact ⟨‹_›, i, s, hs, rfl, hgrouped⟩
    · exact ⟨‹_›, i, s, hs, rfl, rfl⟩
  · exact ⟨i, s, hs, rfl, rfl⟩
  · exact ⟨i, s, hs, rfl, rfl, rfl⟩
  · exact ⟨i, s, hs, rfl, rfl, rfl, rfl⟩
  · exact ⟨haccept, rfl⟩

end Tables

namespace Grammar

variable {g : Grammar} {t : Tables}

/-- The rows tell everything about their states, and every state has one of them. Where a state is
named in the tables, its number names no other state. -/
theorem rows_tell (ht : g.construct = .ok t) :
    t.kind = g.kind ∧ (∀ r ∈ t.rows, t.Tells r) ∧ t.rows.map Row.id = List.range' 1 t.rows.length ∧
      (∀ target, t.Has target → ∃ r ∈ t.rows, r.id = t.number target ∧ r.kind = target.kind) ∧
      (∀ names, (SymbolSet.ofNames names).symbols = names) ∧
      t.Linked ∧ ∀ a b, t.Has a → t.Has b → t.number a = t.number b → a = b := by
  refine ⟨?_, fun r hr ↦ Tables.tells_of_mem_rows hr, t.map_id_rows,
    fun target h ↦ Tables.exists_row h,
    SymbolSet.symbols_ofNames, linked_of_construct ht,
    fun a b ha hb h ↦ Tables.number_injective ha hb h⟩
  rw [construct_eq_ok ht]
  split <;> rfl

end Grammar

namespace Forms

def definitions : List Definition :=
  [.goal "T" (.range (.literal "a") (.literal "c")) ["if", "x"],
    .goal "U" (.range (.literal "c") (.literal "e")) ["\t", "x"]]

def grammar : Grammar := (Grammar.define .superScanner definitions).toOption.get (by decide +kernel)

def tables : Tables := grammar.construct.toOption.get (by decide +kernel)

theorem construct_grammar : grammar.construct = .ok tables :=
  eq_ok_of_toOption (Option.some_get _).symm

theorem rows_tell_forms :
    tables.rows = [.scanner 1 [(.text "abc", "RK", 3)], .scanner 2 [(.text "cde", "RK", 4)],
        .scanner 3 [(.names ["if", "x"], "L", 1)], .scanner 4 [(.codes [9, 120], "L", 2)]] ∧
      (∃ i s, tables.readaheads[i]? = some s ∧ 4 = tables.number (.readahead i) ∧
        [("\t", "L", 2), ("x", "L", 2)].Perm (s.transitions.map tables.move)) ∧
      tables.rows.map Row.id = List.range' 1 tables.rows.length := by
  obtain ⟨-, htells, hid, -⟩ := Grammar.rows_tell construct_grammar
  have hrows :
      tables.rows = [.scanner 1 [(.text "abc", "RK", 3)], .scanner 2 [(.text "cde", "RK", 4)],
      .scanner 3 [(.names ["if", "x"], "L", 1)], .scanner 4 [(.codes [9, 120], "L", 2)]] := by
    decide +kernel
  obtain ⟨-, i, s, hs, hnumber, hgrouped⟩ :=
    htells (.scanner 4 [(.codes [9, 120], "L", 2)]) (by rw [hrows]; decide +kernel)
  exact ⟨hrows, ⟨i, s, hs, hnumber, hgrouped.perm⟩, hid⟩

end Forms

end RightPart
