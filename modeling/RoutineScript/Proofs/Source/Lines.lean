/-
The lines of statements, which are lines of the source.

A layout counts the line ends that it has read, gives off characters on the
line where it stands, and remembers delimiters on theirs. So all that comes
out of a source, its faults included, stands on one of its lines
(`Layout.located`). The parser only ever cuts what comes out into pieces.
-/
import RoutineScript.Proofs.Source.Shifting

namespace RoutineScript

-- ================================================================== layouts

namespace Layout

variable {layout layout' : Layout} {given : Span} {fault : Fault} {c : Char}

/-- What one character does to the lines. What is given off stands on the line
of the layout, and so does a delimiter that opens; a fault stands there too,
or on the line of an open delimiter. -/
inductive KeepsLines (layout : Layout) (c : Char) : Except Fault (Span × Layout) → Prop where
  | gives {given : Span} {layout' : Layout} :
      layout'.line = (layout.line + if c = '\n' then 1 else 0) →
      (∀ d ∈ given, d.line = layout.line) →
      (∀ d ∈ layout'.opened, d ∈ layout.opened ∨ d.line = layout.line) →
        KeepsLines layout c (.ok (given, layout'))
  | refuses {fault : Fault} :
      (fault.line = some layout.line ∨ ∃ d ∈ layout.opened, fault.line = some d.line) →
        KeepsLines layout c (.error fault)

/-- A character that ends no line and opens or closes nothing. -/
theorem keepsLines_same (sameLine : c ≠ '\n') (line : layout'.line = layout.line)
    (opened : layout'.opened = layout.opened) (stands : ∀ d ∈ given, d.line = layout.line) :
    layout.KeepsLines c (.ok (given, layout')) :=
  .gives (by simp [sameLine, line]) stands fun d mem => .inl (opened ▸ mem)

theorem keepsLines_give (sameLine : c ≠ '\n') : layout.KeepsLines c (layout.give c) := by
  have stands : ∀ space : Bool, ∀ d ∈ (if space then [⟨layout.line, ' '⟩] else [] : Span) ++
      [⟨layout.line, c⟩], d.line = layout.line := by
    intro space
    cases space <;> simp
  rw [give, delimit_eq]
  split
  · refine .gives (by simp [sameLine]) (stands _) ?_
    exact List.forall_mem_cons.2 ⟨.inr rfl, fun d mem => .inl mem⟩
  · split
    · split
      · exact .refuses (.inl rfl)
      · rename_i opener rest opened
        split
        · refine .gives (by simp [sameLine]) (stands _) fun d mem => .inl ?_
          rw [opened]
          exact List.mem_cons_of_mem _ mem
        · exact .refuses (.inl rfl)
    · exact keepsLines_same sameLine rfl rfl (stands _)

theorem keepsLines_stepCode (layout : Layout) (c : Char) :
    layout.KeepsLines c (layout.stepCode c) := by
  have kind := layout.codeStep c
  generalize layout.stepCode c = result at kind
  cases kind with
  | lineEnd _ _ isEnd gives =>
    refine .gives (by simp [isEnd]) ?_ fun d mem => .inl mem
    rcases gives with rfl | rfl <;> simp
  | blank _ isBlank =>
    have sameLine : c ≠ '\n' := by
      rintro rfl
      simp at isBlank
    exact keepsLines_same sameLine rfl rfl (by simp)
  | comment isComment => exact keepsLines_same (by simp [isComment]) rfl rfl (by simp)
  | quote isMark => exact keepsLines_same (ne_of_isMark isMark).2.2.1 rfl rfl (by simp)
  | give sameLine _ _ gives =>
    subst gives
    have keeps : KeepsLines { layout with reading := .code } c _ := keepsLines_give sameLine
    generalize { layout with reading := .code }.give c = result at keeps
    cases keeps with
    | gives line stands opened => exact .gives line stands opened
    | refuses blames => exact .refuses blames

theorem keepsLines_step (layout : Layout) (c : Char) : layout.KeepsLines c (layout.step c) := by
  rw [Layout.step]
  split
  · exact layout.keepsLines_stepCode c
  · split
    · exact layout.keepsLines_stepCode c
    · rename_i goesOn
      refine keepsLines_same ?_ rfl rfl (by simp)
      rintro rfl
      simp at goesOn
  · rw [stepLiteral_eq]
    split
    · exact .refuses (.inl rfl)
    · rename_i sameLine
      exact keepsLines_same (by simpa using sameLine) rfl rfl (by simp)

/-- All that comes out stands on lines up to a last one. -/
inductive Within (last : Nat) : Except Fault Span → Prop where
  | given {span : Span} : (∀ c ∈ span, 1 ≤ c.line ∧ c.line ≤ last) → Within last (.ok span)
  | refused {fault : Fault} (line : Nat) :
      fault.line = some line → 1 ≤ line → line ≤ last → Within last (.error fault)

theorem within_read_nil (layout : Layout) {last : Nat} (begun : 1 ≤ layout.line)
    (enough : layout.line ≤ last) (opened : ∀ d ∈ layout.opened, 1 ≤ d.line ∧ d.line ≤ last) :
    Within last (layout.read []) := by
  obtain ⟨line, opened', gap, afterWord, reading⟩ := layout
  have closed : Within last (finish ⟨line, opened', gap, afterWord, .code⟩ >>= fun _ => pure []) := by
    cases opened' with
    | nil => exact .given nofun
    | cons opener _ =>
      obtain ⟨first, last⟩ := opened opener List.mem_cons_self
      exact .refused opener.line rfl first last
  cases reading with
  | code => exact closed
  | comment => exact closed
  | literal quote escaped => exact .refused line rfl begun enough

/-- What a layout reads stands on the lines that it reads. -/
theorem within_read (layout : Layout) (text : List Char) {last : Nat} (begun : 1 ≤ layout.line)
    (enough : layout.line + text.count '\n' ≤ last)
    (opened : ∀ d ∈ layout.opened, 1 ≤ d.line ∧ d.line ≤ last) :
    Within last (layout.read text) := by
  induction text generalizing layout with
  | nil => exact layout.within_read_nil begun enough opened
  | cons c rest ih =>
    have here : layout.line ≤ last := by omega
    have keeps := layout.keepsLines_step c
    rw [read]
    generalize layout.step c = result at keeps
    cases keeps with
    | refuses blames =>
      rcases blames with own | ⟨d, mem, own⟩
      · exact .refused _ own begun here
      · exact .refused _ own (opened d mem).1 (opened d mem).2
    | @gives given layout' line stands opened' =>
      have enough' : layout'.line + rest.count '\n' ≤ last := by
        rw [List.count_cons] at enough
        by_cases isEnd : c = '\n' <;> simp [isEnd] at line enough <;> omega
      have opened'' : ∀ d ∈ layout'.opened, 1 ≤ d.line ∧ d.line ≤ last := by
        intro d mem
        rcases opened' d mem with mem | own
        · exact opened d mem
        · rw [own]
          exact ⟨begun, here⟩
      have tail := ih layout' (by omega) enough' opened''
      show Within last (layout'.read rest >>= fun rest => pure (given ++ rest))
      generalize layout'.read rest = result at tail
      cases tail with
      | refused line own first last => exact .refused line own first last
      | given within =>
        refine .given fun d mem => ?_
        rcases List.mem_append.1 mem with mem | mem
        · rw [stands d mem]
          exact ⟨begun, here⟩
        · exact within d mem

end Layout

/-- What normalizing makes of a source stands on the lines of the source. -/
theorem Span.within_normalize (source : String) :
    Layout.Within (1 + source.toList.count '\n') (normalize source) :=
  Layout.start.within_read source.toList (Nat.le_refl 1) (Nat.le_refl _) nofun

-- =================================================================== pieces

namespace Span

variable {text : Span}

theorem sublist_of_splitWhere {σ : Type} {advance : σ → Char → σ} {stops : σ → Char → Bool}
    {state : σ} {before after : Span}
    (cut : splitWhere advance stops state text = some (before, after)) :
    before.Sublist text ∧ after.Sublist text := by
  rw [← append_of_splitWhere _ _ cut]
  exact ⟨List.sublist_append_left _ _, List.sublist_append_right _ _⟩

theorem sublist_of_enclosed? {body after : Span} (enclosed : text.enclosed? = some (body, after)) :
    body.Sublist text ∧ after.Sublist text := by
  obtain ⟨⟨before, behind⟩, cut, same⟩ := Option.map_eq_some_iff.1 enclosed
  obtain ⟨rfl, rfl⟩ := Prod.mk.inj same
  unfold splitClosing at cut
  split at cut
  · cases cut
  · split at cut
    · cases cut
    · obtain ⟨front, back⟩ := sublist_of_splitWhere cut
      exact ⟨(List.drop_sublist _ _).trans front, (List.drop_sublist _ _).trans back⟩

theorem skipTerminators_sublist (text : Span) : text.skipTerminators.Sublist text :=
  List.dropWhile_sublist _

theorem firstStatement_sublist (text : Span) :
    (firstStatement text).span.Sublist text ∧ (firstStatement text).rest.Sublist text := by
  have front := List.sublist_append_left (firstStatement text).span (firstStatement text).rest
  have back := List.sublist_append_right (firstStatement text).span (firstStatement text).rest
  rw [append_firstStatement] at front back
  exact ⟨front, back⟩

theorem sublist_of_mem_segments {offset : Nat} {segment : Segment}
    (mem : segment ∈ text.segments offset) : segment.span.Sublist text := by
  fun_induction segments offset text with
  | case1 => cases mem
  | case2 offset text c tail skipped first begins ih =>
    obtain ⟨own, others⟩ := firstStatement_sublist (c :: tail)
    have whole := text.skipTerminators_sublist
    rw [skipped] at whole
    rcases List.mem_cons.1 mem with rfl | mem
    · exact own.trans whole
    · exact (ih mem).trans (others.trans whole)

end Span

namespace Stmt

variable {text : Span} {cut : Cut}

theorem sublist_of_cut (isCut : cut? text = some cut) :
    cut.body.Sublist text ∧ cut.rest.Sublist text := by
  obtain ⟨header, braced, body, after, split, enclosed, rfl⟩ := cut?_eq_some_iff.1 isCut
  have part := (Span.sublist_of_splitWhere split).2
  obtain ⟨inside, behind⟩ := Span.sublist_of_enclosed? enclosed
  exact ⟨inside.trans part, after.skipTerminators_sublist.trans (behind.trans part)⟩

theorem Part.sublist (part : Part text cut) : cut.body.Sublist text ∧ cut.rest.Sublist text := by
  induction part with
  | first isCut => exact sublist_of_cut isCut
  | next _ isCut ih =>
    obtain ⟨body, rest⟩ := sublist_of_cut isCut
    exact ⟨body.trans ih.2, rest.trans ih.2⟩

theorem Level.sublist {top level : Span} (isLevel : Level top level) : level.Sublist top := by
  induction isLevel with
  | top => exact .refl _
  | body _ mem _ part ih =>
    exact part.sublist.1.trans ((Span.sublist_of_mem_segments mem).trans ih)

end Stmt

-- ================================================================= programs

/-- A source that cannot be read is refused on one of its lines. -/
theorem Block.line_of_refused {source : String} {fault : Fault}
    (refused : Block.ofSource source = .error fault) :
    ∃ line, fault.line = some line ∧ 1 ≤ line ∧ line ≤ 1 + source.toList.count '\n' := by
  rw [ofSource] at refused
  have within := Span.within_normalize source
  generalize Span.normalize source = result at refused within
  cases within with
  | given => cases refused
  | refused line own first last =>
    cases refused
    exact ⟨line, own, first, last⟩

/-- The statements of a program stand on lines of its source, and those that
could not be read raise their faults there. -/
theorem Block.lines_of_ofSource {source : String} {program : Block}
    (accepted : Block.ofSource source = .ok program) :
    ∀ s ∈ program.statements, (1 ≤ s.line ∧ s.line ≤ 1 + source.toList.count '\n') ∧
      ∀ fault, s.val = .invalid fault → fault.line = some s.line := by
  intro s mem
  rw [ofSource] at accepted
  have within := Span.within_normalize source
  generalize Span.normalize source = result at accepted within
  cases within with
  | refused => cases accepted
  | @given text within =>
    cases accepted
    obtain ⟨level, isLevel, segment, isSegment, stands⟩ := Stmt.exists_level_of_mem text mem
    have sublist := (Span.sublist_of_mem_segments isSegment).trans isLevel.sublist
    refine ⟨?_, stands.invalid⟩
    rw [stands.line]
    cases span : segment.span with
    | nil => exact ⟨Nat.le_refl 1, Nat.le_add_right 1 _⟩
    | cons c rest =>
      rw [span] at sublist
      exact within c (sublist.subset List.mem_cons_self)

end RoutineScript
