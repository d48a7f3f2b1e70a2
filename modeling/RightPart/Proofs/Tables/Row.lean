import RightPart.Proofs.Machine.Completeness
import RightPart.Proofs.Tables.Linked
import RightPart.Tables.Row

namespace RightPart

namespace Row

def kind : Row → StateKind
  | scanner .. | readahead .. => .readahead
  | readback .. => .readback
  | reduce .. => .reduce
  | semantic .. => .semantic
  | accept .. => .accept

def ahead : List StateKind := [.readahead, .readback, .semantic, .accept]

/-- The numbers in a row that stand for other rows, each with what the state of that row may do. -/
def references : Row → List (Nat × List StateKind)
  | scanner _ moves => moves.map fun m ↦ (m.2.2, ahead)
  | readahead _ moves => moves.map fun m ↦ (m.2.2, ahead)
  | readback _ moves => moves.flatMap fun m ↦ [(m.1.2, [.readahead]), (m.2.2, [.readback, .reduce])]
  | reduce _ _ restarts => restarts.flatMap fun m ↦ [(m.1, [.readahead]), (m.2.2, [.readahead])]
  | semantic _ _ _ target => [(target, [.readahead])]
  | accept _ => []

end Row

namespace Tables

variable {t : Tables} {r : Row} {target : Target} {e : Nat × List StateKind}

theorem mem_rows : r ∈ t.rows ↔
    (∃ s i, t.readaheads[i]? = some s ∧
      (if t.kind.isScanner then t.scannerRow i s else t.readaheadRow i s) = r) ∨
    (∃ s i, t.readbacks[i]? = some s ∧ t.readbackRow i s = r) ∨
    (∃ s i, t.reduces[i]? = some s ∧ t.reduceRow i s = r) ∨
    (∃ s i, t.semantics.toList[i]? = some s ∧ t.semanticRow i s = r) ∨
    t.hasAccept ∧ r = .accept (t.number .accept) := by
  have haccept : (r ∈ if t.hasAccept then [.accept (t.number .accept)] else []) ↔
      t.hasAccept ∧ r = .accept (t.number .accept) := by
    split <;> simp_all
  simp only [rows, List.mem_append, List.mem_map, Prod.exists, List.mem_zipIdx_iff_getElem?,
    haccept, or_assoc]

theorem map_id_zipIdx {α : Type} {l : List α} {f : α → Nat → Row} {k : Nat}
    (h : ∀ a i, (f a i).id = k + i) :
    (l.zipIdx.map fun (a, i) ↦ f a i).map Row.id = List.range' k l.length := by
  simp only [List.map_map, Function.comp_def, h]
  have hindex : l.zipIdx.map (k + ·.2) = (l.zipIdx.map Prod.snd).map (k + ·) := by
    rw [List.map_map]
    rfl
  rw [hindex, List.zipIdx_map_snd, List.map_add_range', Nat.add_zero]

/-- The rows are numbered from 1 on without a gap, as the numbers of each kind of states begin where
those of the kind before it end. -/
theorem map_id_rows (t : Tables) : t.rows.map Row.id = List.range' 1 t.rows.length := by
  have hahead := map_id_zipIdx (l := t.readaheads) (k := 1)
    (f := fun s i ↦ if t.kind.isScanner then t.scannerRow i s else t.readaheadRow i s)
    fun s i ↦ by split <;> rfl
  have hback := map_id_zipIdx (l := t.readbacks) (f := fun s i ↦ t.readbackRow i s) fun s i ↦ rfl
  have hreduce := map_id_zipIdx (l := t.reduces) (f := fun s i ↦ t.reduceRow i s) fun s i ↦ rfl
  have hsemantic :=
    map_id_zipIdx (l := t.semantics.toList) (f := fun s i ↦ t.semanticRow i s) fun s i ↦ rfl
  have haccept : (if t.hasAccept then [Row.accept (t.number .accept)] else []).map Row.id =
      List.range' (t.number .accept) (if t.hasAccept then 1 else 0) := by
    split <;> rfl
  obtain ⟨k, hk⟩ : ∃ k, t.rows.map Row.id = List.range' 1 k := by
    simp only [rows, List.map_append, hahead, hback, hreduce, hsemantic, haccept]
    simp only [number, OrderedSet.length_toList, Nat.add_assoc, List.range'_append_1]
    exact ⟨_, rfl⟩
  have hlength : t.rows.length = k := by
    simpa only [List.length_map, List.length_range'] using congrArg List.length hk
  rw [hk, hlength]

theorem exists_row (h : t.Has target) :
    ∃ r ∈ t.rows, r.id = t.number target ∧ r.kind = target.kind := by
  cases target with
  | readahead i =>
    refine ⟨_, mem_rows.2 (.inl ⟨_, i, List.getElem?_eq_getElem h, rfl⟩), ?_⟩
    split <;> exact ⟨rfl, rfl⟩
  | readback i =>
    exact ⟨_, mem_rows.2 (.inr (.inl ⟨_, i, List.getElem?_eq_getElem h, rfl⟩)), rfl, rfl⟩
  | reduce i =>
    exact ⟨_, mem_rows.2 (.inr (.inr (.inl ⟨_, i, List.getElem?_eq_getElem h, rfl⟩))), rfl, rfl⟩
  | semantic i =>
    have hi : i < t.semantics.toList.length := h
    exact ⟨_, mem_rows.2 (.inr (.inr (.inr (.inl ⟨_, i, List.getElem?_eq_getElem hi, rfl⟩)))),
      rfl, rfl⟩
  | accept => exact ⟨_, mem_rows.2 (.inr (.inr (.inr (.inr ⟨h, rfl⟩)))), rfl, rfl⟩

def Refers (t : Tables) (e : Nat × List StateKind) : Prop :=
  ∃ target, t.Has target ∧ t.number target = e.1 ∧ target.kind ∈ e.2

theorem Linked.refers_ahead (h : t.Linked) {s : ReadaheadState} (hs : s ∈ t.readaheads)
    {m : Label × Target} (hm : m ∈ s.transitions) : t.Refers (t.number m.2, Row.ahead) := by
  obtain ⟨hhas, hkind⟩ := h.ahead s hs m hm
  refine ⟨m.2, hhas, rfl, ?_⟩
  cases hk : m.2.kind <;> simp_all [Row.ahead]

theorem Linked.refers (h : t.Linked) (hr : r ∈ t.rows) (he : e ∈ r.references) : t.Refers e := by
  rcases mem_rows.1 hr with
    ⟨s, i, hs, hr⟩ | ⟨s, i, hs, rfl⟩ | ⟨s, i, hs, rfl⟩ | ⟨s, i, hs, rfl⟩ | ⟨-, rfl⟩
  · split at hr <;> subst hr
    · obtain ⟨m, hm, rfl⟩ := List.mem_map.1 he
      obtain ⟨x, hx, rfl⟩ := List.mem_map.1 hm
      obtain ⟨name, hname⟩ := OrderedMap.exists_of_mem_group hx
      obtain ⟨y, hy, heq⟩ := List.mem_map.1 hname
      have htarget : t.number y.2 = x.1.target := congrArg (·.1.target) heq
      rw [← htarget]
      exact h.refers_ahead (List.mem_of_getElem? hs) hy
    · obtain ⟨m, hm, rfl⟩ := List.mem_map.1 he
      obtain ⟨x, hx, rfl⟩ := List.mem_map.1 hm
      exact h.refers_ahead (List.mem_of_getElem? hs) hx
  · obtain ⟨m, hm, he⟩ := List.mem_flatMap.1 he
    obtain ⟨x, hx, rfl⟩ := List.mem_map.1 hm
    obtain ⟨hhas, hkind⟩ := h.back s (List.mem_of_getElem? hs) x hx
    rcases List.mem_pair.1 he with rfl | rfl
    · exact ⟨_, h.stacked s (List.mem_of_getElem? hs) x hx, rfl, List.mem_singleton_self _⟩
    · exact ⟨_, hhas, rfl, List.mem_pair.2 hkind⟩
  · obtain ⟨m, hm, he⟩ := List.mem_flatMap.1 he
    obtain ⟨x, hx, rfl⟩ := List.mem_map.1 hm
    rcases List.mem_pair.1 he with rfl | rfl
    · exact ⟨_, h.source s (List.mem_of_getElem? hs) x hx, rfl, List.mem_singleton_self _⟩
    · exact ⟨_, h.restart s (List.mem_of_getElem? hs) x hx, rfl, List.mem_singleton_self _⟩
  · obtain rfl := List.mem_singleton.1 he
    exact ⟨_, h.semantic s (OrderedSet.mem_def.2 (List.mem_of_getElem? hs)), rfl,
      List.mem_singleton_self _⟩
  · cases he

theorem Refers.exists_row (h : t.Refers e) : ∃ r ∈ t.rows, r.id = e.1 ∧ r.kind ∈ e.2 := by
  obtain ⟨target, hhas, hnumber, hkind⟩ := h
  obtain ⟨r, hr, hid, hrkind⟩ := Tables.exists_row hhas
  exact ⟨r, hr, hid.trans hnumber, hrkind ▸ hkind⟩

end Tables

namespace Grammar

variable {g : Grammar} {d : Draft} {t : Tables} {id : ProductionId} {p : Production} {i j n : Nat}
  {w : List Label}

theorem exists_holds_of_path (hk : g.kind = .parser) (hp : g.productions.get? id = some p)
    (h : p.body.Path i w j) (hi : g.automaton.Holds n ⟨id, i⟩) :
    ∃ m, g.automaton.Holds m ⟨id, j⟩ := by
  induction h generalizing n with
  | nil => exact ⟨n, hi⟩
  | cons ht _ ih =>
    obtain ⟨m, -, hm, -⟩ := exists_edge_of_transition hk (i := ⟨id, _⟩) hp hi ht
    exact ih hm

theorem exists_holds_end (hd : d.finish = .ok g) (hk : g.kind = .parser)
    {e : ProductionId × Production} (he : e ∈ g.goals) :
    ∃ n i, g.automaton.Holds n i ∧ g.Ends i e.2 := by
  have hp := (mem_goals.1 he).1
  obtain ⟨i, hi⟩ := Draft.exists_isInitialAt_body hd hp
  obtain ⟨n, hn⟩ := exists_seed he
  obtain ⟨p, hgoal, henters⟩ := enters_seed ((hn n).2 rfl)
  obtain rfl : e.2 = p := Option.some.inj (hp.symm.trans (mem_goals.1 hgoal).1)
  obtain ⟨v, j, hv, hj⟩ :=
    (Draft.useful_body hd hp i (Automaton.lt_size_of_isInitialAt hi)).finishes
  have hhold := holds_of_enters ((henters ⟨e.1, i⟩).2 ⟨rfl, hi⟩)
  obtain ⟨m, hm⟩ := exists_holds_of_path hk hp hv hhold
  exact ⟨m, _, hm, hp, hj⟩

theorem kind_of_mem_rows (ht : g.construct = .ok t) (hk : g.kind.isScanner) {r : Row}
    (hr : r ∈ t.rows) : r.kind = .readahead ∨ r.kind = .semantic := by
  have heq := eq_scannerTables ht hk
  have hback : t.readbacks = [] := heq ▸ rfl
  have hreduce : t.reduces = [] := heq ▸ rfl
  have haccept : t.hasAccept = false := heq ▸ rfl
  rcases Tables.mem_rows.1 hr with
    ⟨s, i, -, rfl⟩ | ⟨s, i, hs, -⟩ | ⟨s, i, hs, -⟩ | ⟨s, i, -, rfl⟩ | ⟨ha, -⟩
  · split <;> exact .inl rfl
  · simp [hback] at hs
  · simp [hreduce] at hs
  · exact .inr rfl
  · simp [haccept] at ha

/-- The rows of the tables refer to nothing but each other. They are numbered from 1 on without a
gap, and every number of a row that stands for a state is that of a row of a kind that can stand
there. Scanners have readahead and semantic rows only. Parsers have the accepting row, and each goal
is accepted somewhere before every symbol that may follow it. -/
theorem rows_closed (hd : d.finish = .ok g) (ht : g.construct = .ok t) :
    t.rows.map Row.id = List.range' 1 t.rows.length ∧
      (∀ r ∈ t.rows, ∀ e ∈ r.references, ∃ r' ∈ t.rows, r'.id = e.1 ∧ r'.kind ∈ e.2) ∧
      (g.kind.isScanner → ∀ r ∈ t.rows, r.kind = .readahead ∨ r.kind = .semantic) ∧
      (g.kind = .parser → (∃ r ∈ t.rows, r.kind = .accept) ∧
        ∀ e ∈ g.goals, ∃ s ∈ t.readaheads, ∀ name ∈ e.2.lookahead.getD ∅,
          (.look name, .accept) ∈ s.transitions) := by
  have hg := Draft.registered_of_finish hd
  have hlinked := linked_of_construct ht
  refine ⟨t.map_id_rows, fun r hr e he ↦ (hlinked.refers hr he).exists_row,
    fun hk r hr ↦ kind_of_mem_rows ht hk hr, fun hk ↦ ⟨?_, fun e he ↦ ?_⟩⟩
  · obtain ⟨e, he⟩ := List.exists_mem_of_ne_nil _ (goals_ne_nil ht)
    obtain ⟨n, i, hi, hend⟩ := exists_holds_end hd hk he
    have haccept : t.Has .accept :=
      hasAccept_of_ends hg (eq_parserTables ht hk) hi hend (mem_goals.1 he).2
    obtain ⟨r, hr, -, hrkind⟩ := Tables.exists_row haccept
    exact ⟨r, hr, hrkind⟩
  · obtain ⟨n, i, hi, hend⟩ := exists_holds_end hd hk he
    obtain ⟨names, hnames⟩ := Option.isSome_iff_exists.1 (mem_goals.1 he).2
    obtain ⟨node, hnode, -⟩ := id hi
    obtain ⟨s, hs, hmoves⟩ := exists_readahead hg (eq_parserTables ht hk) hnode
    refine ⟨s, List.mem_of_getElem? hs, fun name hname ↦ ?_⟩
    rw [hnames, Option.getD_some] at hname
    exact (hmoves _ _).2 (.accept hi hend hnames hname)

theorem rows_closed_sum : Sum.tables.rows.map Row.id = List.range' 1 Sum.tables.rows.length ∧
    ∃ r ∈ Sum.tables.rows, r.kind = .reduce ∧ ∃ e ∈ r.references, ∃ r' ∈ Sum.tables.rows,
      r'.id = e.1 ∧ r'.kind = .readahead := by
  obtain ⟨hid, hclosed, -⟩ := rows_closed Sum.finish_draft Sum.construct_grammar
  have hreduce : ∃ r ∈ Sum.tables.rows, r.kind = .reduce ∧
      ∃ e ∈ r.references, e.2 = [.readahead] := by
    decide +kernel
  obtain ⟨r, hr, hkind, e, he, hahead⟩ := hreduce
  obtain ⟨r', hr', hr'id, hr'kind⟩ := hclosed r hr e he
  exact ⟨hid, r, hr, hkind, e, he, r', hr', hr'id, List.mem_singleton.1 (hahead ▸ hr'kind)⟩

end Grammar

end RightPart
