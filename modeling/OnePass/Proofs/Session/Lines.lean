import OnePass.Proofs.Text.Blank
import OnePass.Session

/-!
# What becomes of the lines of a session

The lines that a session reads are cut, in order, into blank lines, commands and groups. A group is
evaluated as soon as its parentheses are closed, and not before: each of its lines but the last
leaves some of them open. A session does with its lines what it would do with these parts one by
one, and keeps the beginning of a group that is not finished.
-/

set_option autoImplicit false

namespace OnePass.Session

open Text

def joined (lines : List Text) : Text := Text.join [newline] lines

def ended (lines : List Text) : Text := lines.flatMap fun line => line ++ [newline]

def BeginsExpression (line : Text) : Prop := trim line ≠ [] ∧ (trim line).head? ≠ some 0x3a

/-- The beginning of a group: each line, with those before it, leaves a parenthesis open. -/
structure Unfinished (lines : List Text) : Prop where
  begins : ∀ line ∈ lines.head?, BeginsExpression line
  opens : ∀ u, u <+: lines → u ≠ [] → hasOpenParen (joined u) = true

/-- A whole group: it is closed, and every proper beginning of it is not. -/
structure Finished (lines : List Text) : Prop where
  nonempty : lines ≠ []
  begins : ∀ line ∈ lines.head?, BeginsExpression line
  closes : hasOpenParen (joined lines) = false
  opens : ∀ u, u <+: lines → u ≠ [] → u ≠ lines → hasOpenParen (joined u) = true

inductive Part where
  | blank (line : Text)
  | command (line : Text)
  | group (lines : List Text)
  deriving DecidableEq, Repr

namespace Part

def lines : Part → List Text
  | .blank line => [line]
  | .command line => [line]
  | .group lines => lines

def Proper : Part → Prop
  | .blank line => trim line = []
  | .command line => (trim line).head? = some 0x3a
  | .group lines => Finished lines

def perform (c : Context) (s : Session) : Part → Session
  | .blank _ => s
  | .command line => (s.perform c (SessionCommand.parse (trim line))).1
  | .group lines => s.evaluate c (joined lines)

def Quits : Part → Prop
  | .command line => SessionCommand.parse (trim line) = .quit
  | _ => False

end Part

structure Partition (lines : List Text) (parts : List Part) (waiting : List Text) : Prop where
  inOrder : lines = parts.flatMap Part.lines ++ waiting
  proper : ∀ p ∈ parts, p.Proper
  unfinished : Unfinished waiting

def holding (s : Session) (waiting : List Text) : Session := { s with pending := ended waiting }

theorem joined_cons (line : Text) {rest : List Text} (h : rest ≠ []) :
    joined (line :: rest) = line ++ newline :: joined rest := by
  obtain ⟨next, rest, rfl⟩ := List.exists_cons_of_ne_nil h
  simp [joined, Text.join, List.intercalate]

theorem joined_concat (lines : List Text) (line : Text) :
    joined (lines ++ [line]) = ended lines ++ line := by
  induction lines with
  | nil => simp [joined, Text.join, ended, List.intercalate]
  | cons first lines ih =>
    rw [List.cons_append, joined_cons first (by simp), ih]
    simp [ended]

theorem ended_concat (lines : List Text) (line : Text) :
    ended (lines ++ [line]) = joined (lines ++ [line]) ++ utf8 "\n" := by
  have hnewline : utf8 "\n" = [newline] := rfl
  rw [joined_concat, hnewline]
  simp [ended]

theorem head?_trim_joined {line : Text} (h : trim line ≠ []) (rest : List Text) :
    (trim (joined (line :: rest))).head? = (trim line).head? := by
  cases rest with
  | nil => simp [joined, Text.join, List.intercalate]
  | cons next rest => rw [joined_cons line (by simp), head?_trim_newline h]

theorem Unfinished.nil : Unfinished [] where
  begins := by simp
  opens := fun _ hu hne => absurd (List.prefix_nil.1 hu) hne

section Step

variable {c : Context} {s : Session} {waiting : List Text} {line : Text}

theorem BeginsExpression.joined {lines : List Text}
    (h : ∀ line ∈ lines.head?, BeginsExpression line) (hne : lines ≠ []) :
    BeginsExpression (Session.joined lines) := by
  obtain ⟨first, rest, rfl⟩ := List.exists_cons_of_ne_nil hne
  obtain ⟨hfirst, hcolon⟩ := h first rfl
  have hhead := head?_trim_joined hfirst rest
  refine ⟨fun hnil => ?_, hhead ▸ hcolon⟩
  rw [hnil] at hhead
  exact hfirst (List.head?_eq_none_iff.1 hhead.symm)

theorem ofSource_of_begins {source : Text} (h : BeginsExpression source) :
    Entry.ofSource source =
      if hasOpenParen source then .unfinished source else .complete source := by
  simp [Entry.ofSource, h.1, h.2]

theorem Unfinished.begins_concat (h : Unfinished waiting)
    (hline : waiting = [] → BeginsExpression line) :
    ∀ first ∈ (waiting ++ [line]).head?, BeginsExpression first := by
  cases waiting with
  | nil => simpa using hline rfl
  | cons first waiting => simpa using h.begins first rfl

theorem Unfinished.concat (h : Unfinished waiting) (hline : waiting = [] → BeginsExpression line)
    (hopen : hasOpenParen (Session.joined (waiting ++ [line])) = true) :
    Unfinished (waiting ++ [line]) where
  begins := h.begins_concat hline
  opens := by
    intro u hu hne
    rcases List.prefix_concat_iff.1 hu with rfl | hu
    · exact hopen
    · exact h.opens u hu hne

theorem Unfinished.finish (h : Unfinished waiting) (hline : waiting = [] → BeginsExpression line)
    (hclosed : hasOpenParen (Session.joined (waiting ++ [line])) = false) :
    Finished (waiting ++ [line]) where
  nonempty := by simp
  begins := h.begins_concat hline
  closes := hclosed
  opens := by
    intro u hu hne hproper
    rcases List.prefix_concat_iff.1 hu with hu | hu
    · exact absurd hu hproper
    · exact h.opens u hu hne

theorem holding_nil (h : s.pending = []) : s.holding [] = s := by
  cases s
  cases h
  rfl

/-- All that a session can do with a line. While lines wait it is added to them, whatever it is. -/
theorem step_line (hs : s.pending = []) (h : Unfinished waiting) (c : Context) (line : Text) :
    (waiting = [] ∧ (Part.blank line).Proper ∧
      (s.holding waiting).step c (.line line) = (s, true)) ∨
    (waiting = [] ∧ (Part.command line).Proper ∧
      (s.holding waiting).step c (.line line) = s.perform c (SessionCommand.parse (trim line))) ∨
    (Unfinished (waiting ++ [line]) ∧
      (s.holding waiting).step c (.line line) = (s.holding (waiting ++ [line]), true)) ∨
    (Finished (waiting ++ [line]) ∧
      (s.holding waiting).step c (.line line) =
        (s.evaluate c (joined (waiting ++ [line])), true)) := by
  have hsource : (s.holding waiting).pending ++ line = joined (waiting ++ [line]) :=
    (joined_concat waiting line).symm
  have hrelease : { s.holding waiting with pending := [] } = s := holding_nil hs
  unfold step
  simp only [hsource, hrelease]
  by_cases hline : waiting = [] → BeginsExpression line
  · have hbegins := BeginsExpression.joined (h.begins_concat hline) (by simp)
    rw [ofSource_of_begins hbegins]
    cases hopen : hasOpenParen (joined (waiting ++ [line])) with
    | true =>
      refine .inr (.inr (.inl ⟨h.concat hline hopen, ?_⟩))
      simp [holding, ended_concat]
    | false => exact .inr (.inr (.inr ⟨h.finish hline hopen, rfl⟩))
  · obtain ⟨hnil, hother⟩ := Classical.not_imp.1 hline
    subst hnil
    have hone : joined ([] ++ [line]) = line := joined_concat [] line
    rw [hone, holding_nil hs, Entry.ofSource]
    by_cases hblank : trim line = []
    · exact .inl ⟨rfl, hblank, by simp [hblank]⟩
    · have hcolon : (trim line).head? = some 0x3a :=
        Decidable.byContradiction fun hcolon => hother ⟨hblank, hcolon⟩
      exact .inr (.inl ⟨rfl, hcolon, by simp [hblank, hcolon]⟩)

end Step

section Frame

variable (c : Context) (s : Session)

theorem pending_evaluate (source : Text) : (s.evaluate c source).pending = s.pending := by
  unfold evaluate
  dsimp only
  split <;> rfl

theorem pending_showCode (source : Text) : (s.showCode c source).pending = s.pending := by
  unfold showCode
  dsimp only
  split <;> rfl

theorem pending_perform (command : SessionCommand) :
    (s.perform c command).1.pending = s.pending := by
  cases command with
  | code source => exact pending_showCode c s source
  | _ => rfl

theorem perform_goes_on (command : SessionCommand) :
    (s.perform c command).2 = true ↔ command ≠ .quit := by
  cases command <;> simp [perform]

end Frame

theorem Partition.begin {waiting : List Text} (h : Unfinished waiting) :
    Partition waiting [] waiting :=
  ⟨rfl, by simp, h⟩

theorem Partition.cons {lines waiting : List Text} {parts : List Part} {p : Part}
    (h : Partition lines parts waiting) (hp : p.Proper) :
    Partition (p.lines ++ lines) (p :: parts) waiting where
  inOrder := by rw [h.inOrder, List.flatMap_cons, List.append_assoc]
  proper := List.forall_mem_cons.2 ⟨hp, h.proper⟩
  unfinished := h.unfinished

/-- The parts are performed one by one. Either all lines were read and those that wait are kept, or
the last part was a command to quit, and the first such. -/
def Performed (c : Context) (s : Session) (parts : List Part) (waiting unread : List Text)
    (result : Session × Bool) : Prop :=
  result.1 = (parts.foldl (Part.perform c) s).holding waiting ∧
    ((result.2 = true ∧ unread = [] ∧ ∀ p ∈ parts, ¬p.Quits) ∨
      (result.2 = false ∧ waiting = [] ∧ ∃ earlier last, parts = earlier ++ [last] ∧ last.Quits ∧
        ∀ p ∈ earlier, ¬p.Quits))

theorem Performed.cons {c : Context} {s : Session} {parts : List Part} {waiting unread : List Text}
    {result : Session × Bool} {p : Part}
    (h : Performed c (p.perform c s) parts waiting unread result) (hp : ¬p.Quits) :
    Performed c s (p :: parts) waiting unread result := by
  obtain ⟨hresult, ⟨hon, hread, hparts⟩ |
    ⟨hoff, hwaiting, earlier, last, rfl, hlast, hearlier⟩⟩ := h
  · exact ⟨hresult, .inl ⟨hon, hread, List.forall_mem_cons.2 ⟨hp, hparts⟩⟩⟩
  · exact ⟨hresult, .inr ⟨hoff, hwaiting, p :: earlier, last, rfl, hlast,
      List.forall_mem_cons.2 ⟨hp, hearlier⟩⟩⟩

theorem steps_of_true {c : Context} {s s' : Session} {reading : Reading} {rest : List Reading}
    (h : s.step c reading = (s', true)) : s.steps c (reading :: rest) = s'.steps c rest := by
  rw [steps, h]

theorem steps_of_false {c : Context} {s s' : Session} {reading : Reading} {rest : List Reading}
    (h : s.step c reading = (s', false)) : s.steps c (reading :: rest) = (s', false) := by
  rw [steps, h]

theorem steps_lines (c : Context) (lines : List Text) {s : Session} {waiting : List Text}
    (hs : s.pending = []) (h : Unfinished waiting) :
    ∃ read unread parts rest, lines = read ++ unread ∧
      Partition (waiting ++ read) parts rest ∧
      Performed c s parts rest unread ((s.holding waiting).steps c (lines.map .line)) := by
  induction lines generalizing s waiting with
  | nil =>
    refine ⟨[], [], [], waiting, rfl, ?_, rfl, .inl ⟨rfl, rfl, by simp⟩⟩
    rw [List.append_nil]
    exact .begin h
  | cons line lines ih =>
    rw [List.map_cons]
    rcases step_line hs h c line with ⟨rfl, hblank, hstep⟩ | ⟨rfl, hcommand, hstep⟩ |
      ⟨hopen, hstep⟩ | ⟨hdone, hstep⟩
    · -- a blank line, passed over
      obtain ⟨read, unread, parts, rest, rfl, hparts, hdone⟩ := ih hs .nil
      rw [holding_nil hs] at hdone
      refine ⟨line :: read, unread, .blank line :: parts, rest, rfl, hparts.cons hblank, ?_⟩
      rw [steps_of_true hstep]
      exact hdone.cons id
    · -- a command, after which nothing more is read if it quits
      by_cases hquit : SessionCommand.parse (trim line) = .quit
      · refine ⟨[line], lines, [.command line], [], rfl, (Partition.begin .nil).cons hcommand, ?_⟩
        rw [hquit] at hstep
        rw [steps_of_false hstep]
        refine ⟨?_, .inr ⟨rfl, rfl, [], .command line, rfl, hquit, by simp⟩⟩
        rw [List.foldl_cons, List.foldl_nil, Part.perform, hquit]
        exact (holding_nil hs).symm
      · have hs' := pending_perform c s (SessionCommand.parse (trim line))
        rw [hs] at hs'
        have hon := (perform_goes_on c s _).2 hquit
        obtain ⟨read, unread, parts, rest, rfl, hparts, hdone⟩ := ih hs' .nil
        rw [holding_nil hs'] at hdone
        refine ⟨line :: read, unread, .command line :: parts, rest, rfl, hparts.cons hcommand, ?_⟩
        rw [steps_of_true (hstep.trans (Prod.ext rfl hon))]
        exact hdone.cons hquit
    · -- one more line that waits; the parts are those of all lines that do
      obtain ⟨read, unread, parts, rest, rfl, hparts, hdone⟩ := ih hs hopen
      rw [List.append_assoc] at hparts
      refine ⟨line :: read, unread, parts, rest, rfl, hparts, ?_⟩
      rwa [steps_of_true hstep]
    · -- the last line of a group, which is evaluated
      have hs' := pending_evaluate c s (joined (waiting ++ [line]))
      rw [hs] at hs'
      obtain ⟨read, unread, parts, rest, rfl, hparts, hperformed⟩ := ih hs' .nil
      rw [holding_nil hs'] at hperformed
      have hwhole := hparts.cons (p := .group (waiting ++ [line])) hdone
      rw [Part.lines, List.append_assoc] at hwhole
      refine ⟨line :: read, unread, .group (waiting ++ [line]) :: parts, rest, rfl, hwhole, ?_⟩
      rw [steps_of_true hstep]
      exact hperformed.cons id

section Unique

variable {p q : Part} {lines waiting : List Text}

def Part.Starts : Part → Text → Prop
  | .blank _, line => trim line = []
  | .command _, line => (trim line).head? = some 0x3a
  | .group _, line => BeginsExpression line

theorem Part.Proper.starts (hp : p.Proper) :
    ∃ line rest, p.lines = line :: rest ∧ p.Starts line := by
  cases p with
  | blank line => exact ⟨line, [], rfl, hp⟩
  | command line => exact ⟨line, [], rfl, hp⟩
  | group lines =>
    obtain ⟨first, rest, rfl⟩ := List.exists_cons_of_ne_nil hp.nonempty
    exact ⟨first, rest, rfl, hp.begins first rfl⟩

theorem Part.Starts.group {line : Text} (hp : p.Starts line) (h : BeginsExpression line) :
    p = .group p.lines := by
  cases p with
  | blank => exact absurd hp h.1
  | command => exact absurd hp h.2
  | group lines => rfl

theorem Finished.eq_of_prefix {lines' : List Text} (h : Finished lines) (h' : Finished lines')
    (hle : lines <+: lines') : lines = lines' := by
  refine Decidable.byContradiction fun hne => ?_
  have hopen := h'.opens lines hle h.nonempty hne
  rw [h.closes] at hopen
  cases hopen

/-- No part is the beginning of another one. -/
theorem Part.Proper.eq_of_prefix (hp : p.Proper) (hq : q.Proper) (h : p.lines <+: q.lines) :
    p = q := by
  obtain ⟨line, rest, hline, hstart⟩ := hp.starts
  obtain ⟨line', rest', hline', hstart'⟩ := hq.starts
  obtain rfl : line = line' := by
    rw [hline, hline'] at h
    exact (List.cons_prefix_cons.1 h).1
  cases p with
  | group lines =>
    rw [hstart'.group hstart] at hq ⊢
    exact congrArg Part.group (Finished.eq_of_prefix hp hq h)
  | blank a =>
    cases q with
    | blank b => simp_all [Part.lines]
    | command b => simp_all [Part.Starts]
    | group lines => exact absurd hstart hstart'.1
  | command a =>
    cases q with
    | blank b => simp_all [Part.Starts]
    | command b => simp_all [Part.lines]
    | group lines => exact absurd hstart hstart'.2

theorem Unfinished.not_prefix (h : Unfinished waiting) (hp : p.Proper) : ¬p.lines <+: waiting := by
  intro hle
  obtain ⟨line, rest, hline, hstart⟩ := hp.starts
  have hhead : line ∈ waiting.head? := by
    obtain ⟨t, rfl⟩ := hle
    simp [hline]
  rw [hstart.group (h.begins line hhead)] at hp
  have hopen := h.opens p.lines hle (by simp [hline])
  rw [hp.closes] at hopen
  cases hopen

/-- A part that begins where lines wait holds them all, and the next one. -/
theorem Unfinished.begins_part {line : Text} {after tail : List Text} (h : Unfinished waiting)
    (hne : waiting ≠ []) (hp : p.Proper) (happ : waiting ++ line :: after = p.lines ++ tail) :
    ∃ more, p = .group (waiting ++ line :: more) := by
  rcases List.prefix_or_prefix_of_prefix (List.prefix_append waiting (line :: after))
    (happ ▸ List.prefix_append p.lines tail) with hle | hle
  · obtain ⟨z, hz⟩ := hle
    cases z with
    | nil =>
      rw [List.append_nil] at hz
      exact absurd (hz ▸ List.prefix_refl waiting) (h.not_prefix hp)
    | cons next more =>
      obtain rfl : line = next := by
        rw [← hz, List.append_assoc] at happ
        exact (List.cons.inj (List.append_cancel_left happ)).1
      obtain ⟨first, rest, hfirst, hstart⟩ := hp.starts
      have hhead : first ∈ waiting.head? := by
        obtain ⟨first', waiting, rfl⟩ := List.exists_cons_of_ne_nil hne
        rw [hfirst] at hz
        simp [(List.cons.inj hz).1]
      exact ⟨more, hz ▸ hstart.group (h.begins first hhead)⟩
  · exact absurd hle (h.not_prefix hp)

theorem Part.Proper.eq_of_append {x y : List Text} (hp : p.Proper) (hq : q.Proper)
    (h : p.lines ++ x = q.lines ++ y) : p = q := by
  rcases List.prefix_or_prefix_of_prefix (List.prefix_append p.lines x)
    (h ▸ List.prefix_append q.lines y) with hle | hle
  · exact hp.eq_of_prefix hq hle
  · exact (hq.eq_of_prefix hp hle).symm

variable {parts parts' : List Part}

theorem Partition.tail (h : Partition lines (p :: parts) waiting) :
    ∃ rest, lines = p.lines ++ rest ∧ p.Proper ∧ Partition rest parts waiting := by
  obtain ⟨hp, hparts⟩ := List.forall_mem_cons.1 h.proper
  refine ⟨_, ?_, hp, rfl, hparts, h.unfinished⟩
  rw [h.inOrder, List.flatMap_cons, List.append_assoc]

theorem Partition.unique {waiting' : List Text} (h : Partition lines parts waiting)
    (h' : Partition lines parts' waiting') : parts = parts' ∧ waiting = waiting' := by
  induction parts generalizing lines parts' with
  | nil =>
    cases parts' with
    | nil => exact ⟨rfl, h.inOrder.symm.trans h'.inOrder⟩
    | cons q parts' =>
      obtain ⟨rest, hrest, hq, -⟩ := h'.tail
      have hle : q.lines <+: waiting := ⟨rest, hrest.symm.trans h.inOrder⟩
      exact absurd hle (h.unfinished.not_prefix hq)
  | cons p parts ih =>
    obtain ⟨rest, rfl, hp, hparts⟩ := h.tail
    cases parts' with
    | nil =>
      have hle : p.lines <+: waiting' := ⟨rest, h'.inOrder⟩
      exact absurd hle (h'.unfinished.not_prefix hp)
    | cons q parts' =>
      obtain ⟨rest', hrest', hq, hparts'⟩ := h'.tail
      obtain rfl := hp.eq_of_append hq hrest'
      obtain rfl := List.append_cancel_left hrest'
      obtain ⟨rfl, rfl⟩ := ih hparts hparts'
      exact ⟨rfl, rfl⟩

/-- A line that comes while others wait belongs to their group, whatever it begins with. -/
theorem Partition.joins_group {before after rest : List Text} {line : Text}
    (h : Partition before parts waiting) (hne : waiting ≠ [])
    (h' : Partition (before ++ line :: after) parts' rest) :
    ∃ more, (parts' = parts ∧ rest = waiting ++ line :: more) ∨
      ∃ later, parts' = parts ++ .group (waiting ++ line :: more) :: later := by
  induction parts generalizing before parts' with
  | nil =>
    have hbefore : before = waiting := h.inOrder
    subst hbefore
    cases parts' with
    | nil => exact ⟨after, .inl ⟨rfl, h'.inOrder.symm⟩⟩
    | cons q later =>
      obtain ⟨tail, htail, hq, -⟩ := h'.tail
      obtain ⟨more, rfl⟩ := h.unfinished.begins_part hne hq htail
      exact ⟨more, .inr ⟨later, rfl⟩⟩
  | cons p parts ih =>
    obtain ⟨tail, rfl, hp, hparts⟩ := h.tail
    cases parts' with
    | nil =>
      have hle : p.lines <+: rest := by
        rw [← show _ = rest from h'.inOrder, List.append_assoc]
        exact List.prefix_append _ _
      exact absurd hle (h'.unfinished.not_prefix hp)
    | cons q parts' =>
      obtain ⟨tail', htail', hq, hparts'⟩ := h'.tail
      rw [List.append_assoc] at htail'
      obtain rfl := hp.eq_of_append hq htail'
      obtain rfl := List.append_cancel_left htail'
      obtain ⟨more, ⟨rfl, hrest⟩ | ⟨later, rfl⟩⟩ := ih hparts hparts'
      · exact ⟨more, .inl ⟨rfl, hrest⟩⟩
      · exact ⟨more, .inr ⟨later, rfl⟩⟩

end Unique

/-- No line of a session is lost or taken twice. The lines that are read, which are all unless a
command quits, have exactly one partition into blank lines, commands, groups and the beginning of a
group, and what the session does is to perform these parts in order and to keep that beginning; so
they write all that is written, when the input is given in these lines. A line that comes while a
group is open is part of the group, also if it looks like a command. -/
theorem lines_taken_once (c : Context) (lines : List Text) :
    ∃ read unread parts waiting, lines = read ++ unread ∧
      Partition read parts waiting ∧
      (∀ parts' waiting', Partition read parts' waiting' → parts' = parts ∧ waiting' = waiting) ∧
      Performed c (start c.settings) parts waiting unread
        ((start c.settings).steps c (lines.map .line)) ∧
      (Reading.ofInput c.input = lines.map .line →
        run c = (parts.foldl (Part.perform c) (start c.settings)).output) ∧
      ∀ before line after earlier group, read = before ++ line :: after →
        Partition before earlier group → group ≠ [] →
        ∃ more, (parts = earlier ∧ waiting = group ++ line :: more) ∨
          ∃ later, parts = earlier ++ .group (group ++ line :: more) :: later := by
  obtain ⟨read, unread, parts, waiting, hlines, hparts, hperformed⟩ :=
    steps_lines c lines (s := start c.settings) rfl .nil
  refine ⟨read, unread, parts, waiting, hlines, hparts, fun _ _ h => h.unique hparts, hperformed,
    ?_, ?_⟩
  · intro hinput
    have hwritten := congrArg output hperformed.1
    rw [run, hinput]
    exact hwritten
  · rintro before line after earlier group rfl hbefore hgroup
    exact hbefore.joins_group hgroup hparts

example : hasOpenParen (joined [utf8 "(1 +", utf8 ":quit"]) = true := by decide +kernel

end OnePass.Session
