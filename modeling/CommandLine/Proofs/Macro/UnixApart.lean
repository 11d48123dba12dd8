import CommandLine.Proofs.Macro.UnixAlongside
import CommandLine.Proofs.Macro.UnixBlank
import CommandLine.Proofs.Macro.UnixReturns

/-!
Two lines that lie apart by a blank, between the parentheses of the first `$((`. Up to there both
scans go alongside each other, or the scan of the line without the blank passes the opener in some
other way and does not come to it any more.
-/

set_option autoImplicit false

namespace CommandLine.Macro.Unix.Scan

/-! ### Where the opener is out of reach -/

/-- A place from which the first of `total` openers is not read: it was passed, or the next macro
begins in front of it and reaches into it. -/
inductive Misses (total : Nat) (save : Save) : Prop
  | passed (h : openers save.rest < total)
  | covered {front behind before after : List Char} {found : Occurrence}
    (hrest : save.rest = front ++ (opener false ++ behind)) (hfront : openers front = 0)
    (hbehind : openers behind < total) (hnext : save.next = some found)
    (hbefore : front = before ++ '%' :: after) (hgap : found.gap = before.length)
    (hlength : front.length < found.gap + found.length)

/-- Characters are passed only in front of the next macro, since none begins with a parenthesis. -/
theorem le_length_of_clears {scan : Scan} {before after : List Char} {found : Occurrence}
    (hrest : scan.rest = before ++ '%' :: after) (hnext : scan.next = some found)
    (hgap : found.gap = before.length) {count : Nat} (hclears : scan.Clears count) :
    count ≤ before.length := by
  rcases hclears found hnext with hle | ⟨index, hindex, hparenthesis⟩
  · omega
  · have hsame : index = before.length := by omega
    rw [hrest, hsame, List.getElem?_append_right (Nat.le_refl _), Nat.sub_self] at hparenthesis
    simp at hparenthesis

namespace Misses

variable {total : Nat} {scan next : Scan} {macros : Macros}

theorem substitute (h : Misses total scan.place) {found : Occurrence}
    (hfound : scan.next = some found) (hgap : found.gap = 0) :
    Misses total (scan.substitute macros.finder found).place := by
  cases h with
  | passed h => exact .passed (Nat.lt_of_le_of_lt (openers_drop_le _ _) h)
  | @covered front behind before after other hrest _ hbehind hnext _ _ hlength =>
    have hrest : scan.rest = front ++ (opener false ++ behind) := hrest
    have hnext : scan.next = some other := hnext
    obtain rfl : found = other := by rwa [hfound, Option.some.injEq] at hnext
    refine .passed (Nat.lt_of_le_of_lt ?_ hbehind)
    change openers (scan.rest.drop found.length) ≤ openers behind
    rw [hrest]
    exact openers_drop_opener_le behind (by omega)

theorem skip (h : Misses total scan.place) {count : Nat} (hclears : scan.Clears count) :
    Misses total (scan.skip count).place := by
  cases h with
  | passed h => exact .passed (Nat.lt_of_le_of_lt (openers_drop_le _ _) h)
  | @covered front behind before after found hrest hfront hbehind hnext hbefore hgap hlength =>
    have hrest : scan.rest = front ++ (opener false ++ behind) := hrest
    have hnext : scan.next = some found := hnext
    have hsplit : scan.rest = before ++ '%' :: (after ++ (opener false ++ behind)) := by
      simp [hrest, hbefore]
    have hcount := le_length_of_clears hsplit hnext hgap hclears
    have hle : count ≤ front.length := by simp only [hbefore, List.length_append]; omega
    have hdrop : front.drop count = before.drop count ++ '%' :: after := by
      rw [hbefore, List.drop_append_of_le_length hcount]
    have hnewrest : (scan.skip count).rest = front.drop count ++ (opener false ++ behind) := by
      rw [Scan.skip, hrest, List.drop_append_of_le_length hle]
    have hnewfront : openers (front.drop count) = 0 :=
      Nat.le_zero.mp (hfront ▸ openers_drop_le front count)
    have hnewnext : (scan.skip count).next = some (found.nearer count) := by
      rw [Scan.skip, hnext, Option.map_some]
    refine .covered hnewrest hnewfront hbehind hnewnext hdrop ?_ ?_
    · rw [Occurrence.nearer_gap, List.length_drop]
      omega
    · rw [Occurrence.nearer_gap, Occurrence.nearer_length, List.length_drop]
      omega

theorem unquote (h : Misses total scan.place) {rest : List Char} (hrest : scan.rest = '`' :: rest)
    (hopen : scan.openBackquote = .more next) : Misses total next.place := by
  obtain ⟨hunquotes, -⟩ := unquotes_of_openBackquote hrest hopen
  cases h with
  | passed h =>
    have hopeners : openers scan.rest < total := h
    have hsame : openers next.rest = openers scan.rest := by
      rw [hunquotes.rest, openers_unquoting, hrest, openers_cons_of_ne (by decide)]
    refine .passed ?_
    change openers next.rest < total
    rwa [hsame]
  | @covered front behind before after found htext hfront hbehind hnext hbefore hgap hlength =>
    have htext : scan.rest = front ++ (opener false ++ behind) := htext
    have hnext : scan.next = some found := hnext
    rw [hrest, hbefore] at htext
    cases before with
    | nil => exact absurd (List.cons.inj htext).1 (by decide)
    | cons c before =>
      obtain ⟨rfl, hsplit⟩ := List.cons.inj htext
      have hfront : openers (before ++ '%' :: after) = 0 := by
        rwa [hbefore, List.cons_append, openers_cons_of_ne (by decide)] at hfront
      obtain ⟨later, others, hopener⟩ :=
        exists_unquotesOpener scan.context.quoted hfront behind
      obtain ⟨first, tail, hfirst, hlater, hshort, hcells⟩ := hopener.exists_before
      obtain ⟨row, hrow⟩ := hcells false
      have hahead : found.gap = (first.text false).length + 1 := by rw [hgap, hfirst]; rfl
      have hnewrest : next.rest = later ++ (opener false ++ others) := by
        rw [hunquotes.rest, hsplit]
        exact hopener.text false
      have hnewnext := hunquotes.some first row found (hsplit ▸ hrow) hnext hahead
      refine .covered hnewrest hopener.openers_front ?_ hnewnext hlater rfl ?_
      · rwa [hopener.openers_behind]
      · simp only [hbefore, hgap, hlater, List.length_append, List.length_cons] at hlength ⊢
        omega

end Misses

/-! ### Both scans up to the opener -/

/-- Places in front of the opener, with nothing between the parentheses and with a blank there. -/
inductive Apart (total : Nat) (first second : Save) : Prop
  | intro (front behind : List Char) (hfinished : second.finished = first.finished)
    (hfirst : first.rest = front ++ (opener false ++ behind))
    (hsecond : second.rest = front ++ (opener true ++ behind)) (hfront : openers front = 0)
    (hbehind : openers behind < total) (hnext : NextApart front behind first.next second.next)

/-- What the two scans have in front of the opener and behind it. -/
theorem Apart.exists_front {total : Nat} {first second : Scan}
    (h : Apart total first.place second.place) :
    ∃ front behind, second.finished = first.finished ∧
      first.rest = front ++ (opener false ++ behind) ∧
      second.rest = front ++ (opener true ++ behind) ∧ openers front = 0 ∧
      openers behind < total ∧ NextApart front behind first.next second.next := by
  obtain ⟨front, behind, hfinished, hfirst, hsecond, hfront, hbehind, hnext⟩ := h
  exact ⟨front, behind, hfinished, hfirst, hsecond, hfront, hbehind, hnext⟩

/-- The second place goes along with the first one, as long as that can come to the opener. -/
def Tracks (total : Nat) (first second : Save) : Prop :=
  Misses total first ∨ Apart total first second

variable {macros : Macros} (hpattern : macros.pattern = .default) (hnames : HasNoOpener macros)

namespace Apart

variable {total : Nat} {first second next : Scan}

theorem skip (h : Apart total first.place second.place) {count : Nat}
    (hclears : first.Clears count) :
    Tracks total (first.skip count).place (second.skip count).place := by
  obtain ⟨front, behind, hfinished, hfirst, hsecond, hfront, hbehind, hnext⟩ := h.exists_front
  by_cases hcount : count ≤ front.length
  · have hle : ∀ before after found, front = before ++ '%' :: after → first.next = some found →
        found.gap = before.length → count ≤ before.length := by
      intro before after found hbefore hfound hgap
      have hrest : first.rest = before ++ '%' :: (after ++ (opener false ++ behind)) := by
        simp [hfirst, hbefore]
      exact le_length_of_clears hrest hfound hgap hclears
    refine .inr ⟨front.drop count, behind, ?_, ?_, ?_, ?_, hbehind, hnext.nearer hcount hle⟩
    · simp only [Scan.place, Scan.skip, hfinished, hfirst, hsecond,
        List.take_append_of_le_length hcount]
    · simp only [Scan.place, Scan.skip, hfirst, List.drop_append_of_le_length hcount]
    · simp only [Scan.place, Scan.skip, hsecond, List.drop_append_of_le_length hcount]
    · exact Nat.le_zero.mp (hfront ▸ openers_drop_le front count)
  · refine .inl (.passed (Nat.lt_of_le_of_lt ?_ hbehind))
    change openers (first.rest.drop count) ≤ openers behind
    rw [hfirst]
    exact openers_drop_opener_le behind (by omega)

include hpattern hnames in
theorem substitute (h : Apart total first.place second.place)
    (hcontext : second.context = first.context) {found other : Occurrence}
    (hfound : first.next = some found) (hother : second.next = some other) (hgap : found.gap = 0) :
    Tracks total (first.substitute macros.finder found).place
      (second.substitute macros.finder other).place := by
  obtain ⟨front, behind, hfinished, hfirst, hsecond, hfront, hbehind, hnext⟩ := h.exists_front
  rw [hfound, hother] at hnext
  cases hnext with
  | far hbefore hfar => omega
  | near hbefore hnear hlength =>
    have hle : found.length ≤ front.length := by omega
    have hdrop (blank : Bool) : (front ++ (opener blank ++ behind)).drop found.length =
        front.drop found.length ++ (opener blank ++ behind) := List.drop_append_of_le_length hle
    have hlater : openers (front.drop found.length) = 0 :=
      Nat.le_zero.mp (hfront ▸ openers_drop_le front found.length)
    have hsame : (second.substitute macros.finder found).finished =
        (first.substitute macros.finder found).finished := by
      simp only [Scan.substitute, hcontext, hfinished]
    have hrest : (first.substitute macros.finder found).rest =
        front.drop found.length ++ (opener false ++ behind) := by
      simp only [Scan.substitute, hfirst, hdrop]
    have hspaced : (second.substitute macros.finder found).rest =
        front.drop found.length ++ (opener true ++ behind) := by
      simp only [Scan.substitute, hsecond, hdrop]
    have hahead : (first.substitute macros.finder found).next =
        macros.find (front.drop found.length ++ (opener false ++ behind)) := by
      simp only [Scan.substitute, Macros.finder, hfirst, hdrop]
    have hboth : (second.substitute macros.finder found).next =
        macros.find (front.drop found.length ++ (opener true ++ behind)) := by
      simp only [Scan.substitute, Macros.finder, hsecond, hdrop]
    rcases nextApart_find hpattern hnames (front.drop found.length) behind with
      hapart | ⟨before, after, closer, hcloser, hbefore, hcover, hreach⟩
    · rw [← hahead, ← hboth] at hapart
      exact .inr ⟨_, _, hsame, hrest, hspaced, hlater, hbehind, hapart⟩
    · exact .inl (.covered hrest hlater hbehind (hahead.trans hcloser) hbefore hcover hreach)

/-- The next macro behind the opening mark of a backquoted command with the opener. -/
theorem next_unquote {front behind later others : List Char} {another : Scan}
    (hquoted : second.context.quoted = first.context.quoted)
    (hopener : UnquotesOpener first.context.quoted front behind later others)
    (hnext : NextApart ('`' :: front) behind first.next second.next)
    (hone : Unquotes first (front ++ (opener false ++ behind)) next)
    (htwo : Unquotes second (front ++ (opener true ++ behind)) another) :
    NextApart later others next.next another.next ∨
      ∃ before after found, next.next = some found ∧ later = before ++ '%' :: after ∧
        found.gap = before.length ∧ later.length < found.gap + found.length := by
  have hnone := hone.none
  have hsome := hone.some
  have hnone' := htwo.none
  have hsome' := htwo.some
  rw [hquoted] at hsome'
  generalize first.next = ahead at hnext hnone hsome
  generalize second.next = another at hnext hnone' hsome'
  cases hnext with
  | none =>
    rw [hnone rfl, hnone' rfl]
    exact .inl .none
  | @near before after found hbefore hgap hlength =>
    cases before with
    | nil => exact absurd (List.cons.inj hbefore).1 (by decide)
    | cons c before =>
      obtain ⟨rfl, rfl⟩ := List.cons.inj hbefore
      obtain ⟨front, tail, hfront, hlater, -, hcells⟩ := hopener.exists_before
      obtain ⟨row, hrow⟩ := hcells false
      obtain ⟨spaced, hspaced⟩ := hcells true
      have hahead : found.gap = (front.text false).length + 1 := by rw [hgap, hfront]; rfl
      rw [hsome front row found hrow rfl hahead, hsome' front spaced found hspaced rfl hahead]
      by_cases hreach : (front.text true).length + found.length ≤ later.length
      · exact .inl (.near hlater rfl (by dsimp only; omega))
      · exact .inr ⟨_, tail, _, rfl, hlater, rfl, by dsimp only; omega⟩
  | @far before after found hbefore hgap =>
    subst hbefore
    obtain ⟨ahead, tail, hothers, hcells⟩ := hopener.exists_behind
    obtain ⟨row, rest, hrow, hold, hnew⟩ := hcells false
    obtain ⟨spaced, others, hspaced, hspacedold, hspacednew⟩ := hcells true
    have hplain : (opener false).length = 3 := rfl
    have hblank : (opener true).length = 4 := rfl
    rw [List.length_cons] at hgap
    rw [hsome row rest found hrow rfl (by omega),
      hsome' spaced others (found.farther 1) hspaced rfl (by rw [Occurrence.farther_gap]; omega)]
    have hfarther : (spaced.text true).length = (row.text true).length + 1 := by omega
    refine .inl ?_
    rw [hfarther]
    exact .far hothers (by dsimp only; omega)

theorem unquote (h : Apart total first.place second.place)
    (hcontext : second.context = first.context) {rest : List Char}
    (hrest : first.rest = '`' :: rest) (hopen : first.openBackquote = .more next) :
    ∃ other, second.openBackquote = .more other ∧ Tracks total next.place other.place := by
  obtain ⟨front, behind, hfinished, hfirst, hsecond, hfront, hbehind, hnext⟩ := h.exists_front
  rw [hrest] at hfirst
  cases front with
  | nil => exact absurd (List.cons.inj hfirst).1 (by decide)
  | cons c front =>
    rw [List.cons_append] at hfirst
    obtain ⟨rfl, rfl⟩ := List.cons.inj hfirst
    rw [openers_cons_of_ne (by decide)] at hfront
    obtain ⟨later, others, hopener⟩ := exists_unquotesOpener first.context.quoted hfront behind
    obtain ⟨hone, hclosing⟩ := unquotes_of_openBackquote hrest hopen
    have hspaced : closingMark ∈
        unquoting second.context.quoted (front ++ (opener true ++ behind)) := by
      rw [hcontext]
      rw [hopener.cells] at hclosing ⊢
      rcases List.mem_append.mp hclosing with hleft | hright
      · exact List.mem_append_left _ hleft
      rcases List.mem_append.mp hright with hmiddle | hright
      · obtain ⟨d, -, hd⟩ := List.mem_map.mp hmiddle
        cases hd
      · exact List.mem_append_right _ (List.mem_append_right _ hright)
    obtain ⟨other, hother⟩ := exists_openBackquote hsecond hspaced
    obtain ⟨htwo, -⟩ := unquotes_of_openBackquote hsecond hother
    refine ⟨other, hother, ?_⟩
    have hnewrest : next.rest = later ++ (opener false ++ others) :=
      hone.rest.trans (hopener.text false)
    have hspacedrest : other.rest = later ++ (opener true ++ others) := by
      rw [htwo.rest, hcontext]
      exact hopener.text true
    have hsame : other.finished = next.finished := by
      rw [hone.finished, htwo.finished, hfinished]
    have hothers : openers others < total := by rwa [hopener.openers_behind]
    have hquoted : second.context.quoted = first.context.quoted := by rw [hcontext]
    rcases next_unquote hquoted hopener hnext hone htwo with
      hapart | ⟨before, after, found, hfound, hbefore, hgap, hreach⟩
    · exact .inr ⟨later, others, hsame, hnewrest, hspacedrest, hopener.openers_front, hothers,
        hapart⟩
    · exact .inl (.covered hnewrest hopener.openers_front hothers hfound hbefore hgap hreach)

include hpattern hnames in
/-- In front of the opener the second line has the same ahead as the first one. -/
theorem mirrors (h : Apart total first.place second.place)
    (hcontext : second.context = first.context)
    (hopener : ∀ behind, first.rest ≠ '$' :: '(' :: '(' :: behind) :
    Mirrors macros.finder (Tracks total) first second := by
  have hapart := h
  obtain ⟨front, behind, -, hfirst, hsecond, -, -, hnext⟩ := h.exists_front
  refine ⟨?_, ?_, ?_, fun _ ↦ hapart.skip, ?_, fun _ _ ↦ hapart.unquote hcontext⟩
  · rw [hfirst, hsecond]
    rcases front with _ | ⟨c, _ | ⟨d, _ | ⟨e, front⟩⟩⟩
    · exact absurd hfirst (hopener behind)
    all_goals rfl
  · intro hnone
    rw [hnone] at hnext
    generalize second.next = ahead at hnext
    cases hnext
    rfl
  · intro found hfound
    rw [hfound] at hnext
    generalize second.next = ahead at hnext
    cases hnext with
    | near => exact ⟨found, rfl, .inl rfl⟩
    | far _ hgap =>
      refine ⟨_, rfl, .inr ?_⟩
      rw [Occurrence.farther_gap]
      omega
  · intro found other hfound hother hgap _
    exact hapart.substitute hpattern hnames hcontext hfound hother hgap

/-- A step at the opener itself passes it. -/
theorem misses_of_opener (h : Apart total first.place second.place) {inside : List Char}
    (hopener : first.rest = '$' :: '(' :: '(' :: inside) (hsaves : first.saves = [])
    (hstep : first.step macros.finder = .more next) : next.Everywhere (Misses total) := by
  obtain ⟨front, behind, -, hfirst, -, hfront, hbehind, -⟩ := h.exists_front
  obtain rfl := eq_nil_of_opener hfront (hfirst.symm.trans hopener)
  have hpassed {count : Nat} (hcount : 0 < count) : openers (first.rest.drop count) < total := by
    rw [hfirst]
    exact Nat.lt_of_le_of_lt (openers_drop_opener_le behind hcount) hbehind
  have hlt : next.rest.length < first.rest.length := by
    cases shifts_step hstep with
    | kept hlt | entered hlt | left hlt | confirmed hlt => exact hlt
    | guessed hrest => exact length_openArithmetic_lt hrest
    | abandoned _ heq =>
      rw [hsaves] at heq
      cases heq
  cases moves_of_step hstep with
  | substituted =>
    refine ⟨.passed (hpassed (Occurrence.length_pos _)), fun save hsave ↦ ?_⟩
    have hsave : save ∈ first.saves := hsave
    rw [hsaves] at hsave
    cases hsave
  | passed count _ hplace hnew =>
    have hmisses : Misses total next.place := by
      rw [hplace]
      refine .passed (hpassed (Nat.pos_of_ne_zero ?_))
      rintro rfl
      have hsame : next.rest = first.rest := congrArg Save.rest hplace
      rw [hsame] at hlt
      exact Nat.lt_irrefl _ hlt
    refine ⟨hmisses, fun save hsave ↦ ?_⟩
    rcases hnew save hsave with hold | rfl
    · rw [hsaves] at hold
      cases hold
    · exact hmisses
  | returned hplace =>
    rw [hsaves] at hplace
    cases hplace
  | unquoted hrest =>
    rw [hopener] at hrest
    exact absurd (List.cons.inj hrest).1 (by decide)

end Apart

section Together

variable {total : Nat} {origin first next : Scan}

theorem Misses.moves (h : first.Everywhere (Misses total))
    (hmoves : Moves macros.finder first next) : next.Everywhere (Misses total) :=
  h.moves (fun _ _ hplace hnext hgap ↦ hplace.substitute hnext hgap) (fun _ _ hplace ↦ hplace.skip)
    (fun _ _ _ hplace ↦ hplace.unquote) hmoves

theorem Misses.openers_ne {save : Save} (h : Misses total save) {inside : List Char}
    (hopener : save.rest = '$' :: '(' :: '(' :: inside) : openers save.rest ≠ total := by
  cases h with
  | passed hlt => exact Nat.ne_of_lt hlt
  | covered hrest hfront _ _ hbefore =>
    obtain rfl := eq_nil_of_opener hfront (hrest.symm.trans hopener)
    simp at hbefore

/-- Up to the opener the scan of the line with the blank has come to where the other scan is, unless
that has passed the opener already. -/
inductive Together (find : Finder) (total : Nat) (origin first : Scan) : Prop
  | misses (h : first.Everywhere (Misses total))
  | apart (second : Scan) (hrun : origin.run find = second.run find)
    (halongside : Alongside (Tracks total) id [] first second)
    (hapart : Apart total first.place second.place) (hsaves : first.saves = [])

include hpattern hnames in
theorem Together.step (h : Together macros.finder total origin first)
    (hstep : first.step macros.finder = .more next) :
    Together macros.finder total origin next := by
  cases h with
  | misses h => exact .misses (Misses.moves h (moves_of_step hstep))
  | apart second hrun halongside hapart hsaves =>
    by_cases hopener : ∃ inside, first.rest = '$' :: '(' :: '(' :: inside
    · obtain ⟨inside, hopener⟩ := hopener
      exact .misses (hapart.misses_of_opener hopener hsaves hstep)
    have hmirrors := hapart.mirrors hpattern hnames halongside.context
      fun inside hrest ↦ hopener ⟨inside, hrest⟩
    obtain ⟨other, hother, hbeside⟩ :=
      carries_step Nests.refl halongside hmirrors next hstep
    have hnil : next.saves = [] := by
      cases shifts_step hstep with
      | kept _ _ _ heq | entered _ _ _ heq | left _ _ _ heq => rw [heq, hsaves]
      | guessed hrest => exact absurd ⟨_, hrest⟩ hopener
      | confirmed _ _ _ heq | abandoned _ heq => simp [hsaves] at heq
    rcases hbeside.place with hmisses | hnext
    · exact .misses ⟨hmisses, by simp [hnil]⟩
    · exact .apart other (hrun.trans (run_of_more hother)) hbeside.toAlongside hnext hnil

include hpattern hnames in
/-- Where the scan of a line comes to its first opener, the scan of the line with a blank in it
comes to the opener as well. -/
theorem exists_apart_of_after {front behind inside : List Char} {found : Occurrence} {count : Nat}
    {opening : Scan} (hfront : openers front = 0)
    (hfind : macros.find (front ++ (opener false ++ behind)) = some found)
    (hafter : after macros.finder count (start (front ++ (opener false ++ behind)) found) =
      some opening) (hopener : opening.rest = '$' :: '(' :: '(' :: inside)
    (htotal : openers opening.rest = openers (front ++ (opener false ++ behind))) :
    ∃ other second, macros.find (front ++ (opener true ++ behind)) = some other ∧
      (start (front ++ (opener true ++ behind)) other).run macros.finder =
        second.run macros.finder ∧
      Alongside (Tracks (openers behind + 1)) id [] opening second ∧
      Apart (openers behind + 1) opening.place second.place ∧ opening.saves = [] := by
  rw [openers_append_opener, hfront, Nat.zero_add] at htotal
  rcases nextApart_find hpattern hnames front behind with
    hapart | ⟨before, after, covering, hcovering, hbefore, hgap, hreach⟩
  · obtain ⟨other, hother⟩ :
        ∃ other, macros.find (front ++ (opener true ++ behind)) = some other := by
      rw [hfind] at hapart
      generalize macros.find (front ++ (opener true ++ behind)) = next at hapart ⊢
      cases hapart with
      | near => exact ⟨_, rfl⟩
      | far => exact ⟨_, rfl⟩
    rw [hfind, hother] at hapart
    have hstart : Together macros.finder (openers behind + 1)
        (start (front ++ (opener true ++ behind)) other)
        (start (front ++ (opener false ++ behind)) found) :=
      .apart _ rfl ⟨rfl, rfl, .nil⟩
        ⟨front, behind, rfl, rfl, rfl, hfront, Nat.lt_succ_self _, hapart⟩ rfl
    cases of_after (fun _ _ h ↦ h.step hpattern hnames) hafter hstart with
    | misses h => exact absurd htotal (h.place.openers_ne hopener)
    | apart second hrun halongside hapart hsaves =>
      exact ⟨other, second, hother, hrun, halongside, hapart, hsaves⟩
  · rw [hfind] at hcovering
    have hstart : (start (front ++ (opener false ++ behind)) found).Everywhere
        (Misses (openers behind + 1)) :=
      ⟨.covered rfl hfront (Nat.lt_succ_self _) hcovering hbefore hgap hreach, by simp [start]⟩
    have hopening := of_after (fun _ _ h hstep ↦ Misses.moves h (moves_of_step hstep)) hafter hstart
    exact absurd htotal (hopening.place.openers_ne hopener)

end Together

end CommandLine.Macro.Unix.Scan
