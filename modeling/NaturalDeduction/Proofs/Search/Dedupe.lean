/-
An account of states does not change the answer.

With ample budgets a search ends in the same way whether it skips nodes whose
formulas came up before or not.  The two searches are run side by side.  The
one that keeps no account does everything; the other waits while the first
deals with a node whose formulas came up before, and otherwise does the same.

At any time let `past` be the nodes that the first search has dealt with and
`queue` those that wait.  Then the waiting nodes of the second are those of
`queue` whose formulas come up neither in `past` nor earlier in `queue`
(`fresh`), and it has seen what is in either (`InStep`).  A node with the same
formulas as a past one

* does not finish, since with ample budgets this depends on the formulas alone,
  up to order (`eventually_finishes_iff`, `Closes.perm`);
* has children with the same formulas as children of the past one, which have
  come up too.

So nothing is lost when the second search skips it.  That both take the same
candidate where a node does finish rests on the nested searches: by induction
on the room these end in the same way in both (`candidates_eq_of_sameEnding`).

Main results: one pass of the first run is matched by at most one of the second
(`InStep.ends`, `InStep.goesOn`), so both runs end in the same way
(`run_inStep`), and so do the searches (`dedupe_keeps_answer`).
-/
import NaturalDeduction.Proofs.Search.Ample
import NaturalDeduction.Proofs.Search.Budgets
import NaturalDeduction.Proofs.Search.Endings

namespace NaturalDeduction

/-! ### Nodes whose formulas are new -/

namespace Frontier

open Node

/-- The nodes of a list whose formulas come up neither in `past` nor earlier in
the list. -/
def fresh : List (List Line) → List (List Line) → List (List Line)
  | _, [] => []
  | past, x :: rest =>
    if past.any fun y => (formulas y).isPerm (formulas x) then fresh (past ++ [x]) rest
    else x :: fresh (past ++ [x]) rest

/-- The formulas of `x`, in some order, are those of a node in the list. -/
def Known (nodes : List (List Line)) (x : List Line) : Prop :=
  ∃ y ∈ nodes, (formulas y).Perm (formulas x)

variable {past rest more : List (List Line)} {x : List Line}

theorem Known.mono {nodes nodes' : List (List Line)} (hsub : ∀ y ∈ nodes, y ∈ nodes')
    (h : Known nodes x) : Known nodes' x := by
  obtain ⟨y, hy, hperm⟩ := h
  exact ⟨y, hsub y hy, hperm⟩

theorem any_isPerm_iff :
    (past.any fun y => (formulas y).isPerm (formulas x)) = true ↔ Known past x := by
  simp [Known, List.isPerm_iff]

theorem fresh_cons_of_known (h : Known past x) :
    fresh past (x :: rest) = fresh (past ++ [x]) rest := by
  rw [fresh, if_pos (any_isPerm_iff.mpr h)]

theorem fresh_cons_of_not_known (h : ¬ Known past x) :
    fresh past (x :: rest) = x :: fresh (past ++ [x]) rest := by
  rw [fresh, if_neg (fun hany => h (any_isPerm_iff.mp hany))]

theorem fresh_append :
    fresh past (rest ++ more) = fresh past rest ++ fresh (past ++ rest) more := by
  induction rest generalizing past with
  | nil => simp [fresh]
  | cons x rest ih =>
    by_cases h : Known past x
    · rw [List.cons_append, fresh_cons_of_known h, fresh_cons_of_known h, ih, List.append_assoc]
      rfl
    · rw [List.cons_append, fresh_cons_of_not_known h, fresh_cons_of_not_known h, ih,
        List.append_assoc]
      rfl

theorem fresh_eq_nil (h : ∀ x ∈ more, Known past x) : fresh past more = [] := by
  induction more generalizing past with
  | nil => rfl
  | cons x more ih =>
    rw [fresh_cons_of_known (h x List.mem_cons_self)]
    apply ih
    intro y hy
    exact (h y (List.mem_cons_of_mem x hy)).mono fun z hz => List.mem_append_left [x] hz

/-- What has been seen is what the nodes state. -/
def SeenAs (seen : Seen) (nodes : List (List Line)) : Prop :=
  ∀ x, seen.contains (formulas x) = true ↔ Known nodes x

theorem SeenAs.append_known {seen : Seen} (h : SeenAs seen past)
    (hmore : ∀ x ∈ more, Known past x) : SeenAs seen (past ++ more) := by
  intro x
  rw [h x]
  constructor
  · exact Known.mono fun y hy => List.mem_append_left more hy
  · rintro ⟨y, hy, hperm⟩
    rcases List.mem_append.mp hy with hy | hy
    · exact ⟨y, hy, hperm⟩
    · obtain ⟨z, hz, hperm'⟩ := hmore y hy
      exact ⟨z, hz, hperm'.trans hperm⟩

theorem SeenAs.insert {seen : Seen} (h : SeenAs seen past) (x : List Line) :
    SeenAs (seen.insert (formulas x)) (past ++ [x]) := by
  intro y
  rw [Seen.contains_insert, Bool.or_eq_true, List.isPerm_iff, h y]
  constructor
  · rintro (hperm | hy)
    · exact ⟨x, by simp, hperm⟩
    · exact hy.mono fun z hz => List.mem_append_left [x] hz
  · rintro ⟨z, hz, hperm⟩
    rcases List.mem_append.mp hz with hz | hz
    · exact .inr ⟨z, hz, hperm⟩
    · exact .inl (List.mem_singleton.mp hz ▸ hperm)

/-- The children that are admitted are those whose formulas are new, and they
are noted. -/
theorem admitted_eq_fresh {seen : Seen} (h : SeenAs seen past) (more : List (List Line)) :
    admitted (some seen) more = fresh past more ∧
      ∃ seen', noted (some seen) more = some seen' ∧ SeenAs seen' (past ++ more) := by
  induction more generalizing seen past with
  | nil => exact ⟨rfl, seen, rfl, by simpa using h⟩
  | cons x more ih =>
    by_cases hx : Known past x
    · have hcontains := (h x).mpr hx
      have hseen : SeenAs seen (past ++ [x]) := h.append_known (by simpa using hx)
      obtain ⟨hadmitted, seen', hnoted, hseen'⟩ := ih hseen
      rw [admitted, if_pos hcontains, noted, if_pos hcontains, fresh_cons_of_known hx]
      exact ⟨hadmitted, seen', hnoted, by simpa using hseen'⟩
    · have hcontains : ¬ seen.contains (formulas x) = true := fun hc => hx ((h x).mp hc)
      obtain ⟨hadmitted, seen', hnoted, hseen'⟩ := ih (h.insert x)
      rw [admitted, if_neg hcontains, noted, if_neg hcontains, fresh_cons_of_not_known hx,
        hadmitted]
      exact ⟨rfl, seen', hnoted, by simpa using hseen'⟩

/-! ### Two runs side by side -/

/-- The run `f'` with an account of states has kept up with the run `f` without
one, which has dealt with the nodes in `past`. -/
structure InStep (head : Node) (past : List (List Line)) (f f' : Frontier) : Prop where
  queue : f'.queue.toList = fresh past f.queue.toList
  unaccounted : f.seen = none
  accounted : ∃ seen, f'.seen = some seen ∧ SeenAs seen (past ++ f.queue.toList)
  last : f'.lastLength = f.lastLength
  length_le : ∀ y ∈ past, y.length ≤ f.lastLength
  numbered : ∀ y ∈ past, Line.WellNumbered y
  /-- What was expanded did not finish, and its children have come up. -/
  expanded : ∀ y ∈ past, y.length ≤ head.settings.maxLines →
    ¬ Closes head.bounds head.goal (formulas y) ∧
      ∀ child ∈ children head.goal y, Known (past ++ f.queue.toList) child

variable {head : Node} {f f' g g' : Frontier}

theorem length_eq_of_perm {y : List Line} (hperm : (formulas y).Perm (formulas x)) :
    y.length = x.length := by
  rw [← length_formulas y, ← length_formulas x, hperm.length_eq]

/-- Nodes with the same formulas have children with the same formulas. -/
theorem exists_children_perm {goal : Formula} {y child : List Line}
    (hx : Line.WellNumbered x) (hy : Line.WellNumbered y) (hperm : (formulas y).Perm (formulas x))
    (hchild : child ∈ children goal x) :
    ∃ c ∈ children goal y, (formulas c).Perm (formulas child) := by
  obtain ⟨l, hl, hnew, rfl⟩ := (mem_children_iff hx).mp hchild
  obtain ⟨k, hk, hkf⟩ := (hl.oneStep.mono fun f hf => hperm.mem_iff.mpr hf).exists_isStep hy
  refine ⟨y ++ [k], (mem_children_iff hy).mpr ⟨k, hk, ?_, rfl⟩, ?_⟩
  · rwa [hkf, hperm.mem_iff]
  · rw [formulas_append_singleton, formulas_append_singleton, hkf]
    exact hperm.append_right _

/-- A node that closes a derivation is new to the second run. -/
theorem InStep.not_known (h : InStep head past f f') (hlen : x.length ≤ head.settings.maxLines)
    (hcloses : Closes head.bounds head.goal (formulas x)) : ¬ Known past x := by
  rintro ⟨y, hy, hperm⟩
  have hlength := length_eq_of_perm hperm
  exact (h.expanded y hy (by omega)).1 (hcloses.perm hperm.symm)

/-- Both runs have dealt with the node at the front of the first queue, and
`more` was put behind the rest. -/
theorem InStep.next (h : InStep head past f f') (hqueue : f.queue.toList = x :: rest)
    (hlevel : f.Leveled) (hnum : Line.WellNumbered x)
    (hx : x.length ≤ head.settings.maxLines →
      ¬ Closes head.bounds head.goal (formulas x) ∧ more = children head.goal x)
    (hg : g.queue.toList = rest ++ more) (hgseen : g.seen = none) (hglast : g.lastLength = x.length)
    (hg' : g'.queue.toList = fresh (past ++ [x]) (rest ++ more))
    (hgseen' : ∃ seen, g'.seen = some seen ∧ SeenAs seen (past ++ f.queue.toList ++ more))
    (hglast' : g'.lastLength = x.length) : InStep head (past ++ [x]) g g' := by
  have hall : past ++ f.queue.toList ++ more = past ++ [x] ++ g.queue.toList := by
    simp [hqueue, hg]
  have hlast : f.lastLength ≤ x.length := hlevel.last x (by simp [hqueue])
  constructor
  · rw [hg, hg']
  · exact hgseen
  · rw [← hall]
    exact hgseen'
  · rw [hglast, hglast']
  · intro y hy
    rw [hglast]
    rcases List.mem_append.mp hy with hy | hy
    · exact Nat.le_trans (h.length_le y hy) hlast
    · obtain rfl := List.mem_singleton.mp hy
      exact Nat.le_refl _
  · intro y hy
    rcases List.mem_append.mp hy with hy | hy
    · exact h.numbered y hy
    · rwa [List.mem_singleton.mp hy]
  · intro y hy hlen
    rw [← hall]
    rcases List.mem_append.mp hy with hy | hy
    · obtain ⟨hcloses, hchildren⟩ := h.expanded y hy hlen
      exact ⟨hcloses, fun child hchild =>
        (hchildren child hchild).mono fun z hz => List.mem_append_left more hz⟩
    · obtain rfl := List.mem_singleton.mp hy
      obtain ⟨hcloses, rfl⟩ := hx hlen
      exact ⟨hcloses, fun child hchild => ⟨child, List.mem_append_right _ hchild, .refl _⟩⟩

/-- While the first run deals with a node whose formulas came up before, the
second waits. -/
theorem InStep.skip (h : InStep head past f f') (hqueue : f.queue.toList = x :: rest)
    (hlevel : f.Leveled) (hnum : Line.WellNumbered x) (hknown : Known past x)
    (hx : x.length ≤ head.settings.maxLines → more = children head.goal x)
    (hlong : head.settings.maxLines < x.length → more = [])
    (hg : g.queue.toList = rest ++ more) (hgseen : g.seen = none)
    (hglast : g.lastLength = x.length) : InStep head (past ++ [x]) g f' := by
  obtain ⟨y, hy, hperm⟩ := hknown
  have hlength := length_eq_of_perm hperm
  -- what the node gives rise to has come up among the children of `y`
  have hmore : ∀ child ∈ more, Known (past ++ f.queue.toList) child := by
    intro child hchild
    rcases Nat.lt_or_ge head.settings.maxLines x.length with hlt | hle
    · rw [hlong hlt] at hchild
      cases hchild
    · rw [hx hle] at hchild
      obtain ⟨c, hc, hperm'⟩ := exists_children_perm hnum (h.numbered y hy) hperm hchild
      obtain ⟨z, hz, hperm''⟩ := (h.expanded y hy (by omega)).2 c hc
      exact ⟨z, hz, hperm''.trans hperm'⟩
  refine h.next hqueue hlevel hnum (fun hlen => ⟨fun hcloses => ?_, hx hlen⟩) hg hgseen hglast
    ?_ ?_ ?_
  · exact h.not_known hlen hcloses ⟨y, hy, hperm⟩
  · have hnil : fresh (past ++ [x] ++ rest) more = [] := by
      apply fresh_eq_nil
      simpa [hqueue] using hmore
    rw [h.queue, hqueue, fresh_cons_of_known ⟨y, hy, hperm⟩, fresh_append, hnil, List.append_nil]
  · obtain ⟨seen, hseen, hseenAs⟩ := h.accounted
    exact ⟨seen, hseen, hseenAs.append_known hmore⟩
  · -- the lengths of past nodes grow, and `y` is as long as `x`
    have := h.length_le y hy
    have := hlevel.last x (by simp [hqueue])
    rw [h.last]
    omega

/-- A node that is new stands at the front of the second queue too. -/
theorem InStep.queue_eq_cons (h : InStep head past f f') (hqueue : f.queue.toList = x :: rest)
    (hnew : ¬ Known past x) : f'.queue.toList = x :: fresh (past ++ [x]) rest := by
  rw [h.queue, hqueue, fresh_cons_of_not_known hnew]

/-- What is known of the nodes that wait in a search without an account of
states. -/
def Waits (head : Node) (lines : List Line) : Prop :=
  Open head lines ∧
    Line.WellNumbered lines ∧ Reach head.settings.maxLines head.goal head.lines lines

theorem keeps_waits (head : Node) : head.Keeps (Waits head) :=
  (keeps_open head).and head.keeps_reach

/-- What the nested searches of both runs are known to give.  Here `t` are the
settings of the run with an account of states. -/
structure Agree (head : Node) (t : Settings) : Prop where
  maxLines : t.maxLines = head.settings.maxLines
  /-- Whether a node finishes depends on its formulas alone. -/
  finishes : ∀ x, Reach head.settings.maxLines head.goal head.lines x →
    x.length ≤ head.settings.maxLines →
    (Finishes Node.search ⟨x, head.goal, head.settings⟩ ↔
      Closes head.bounds head.goal (formulas x))
  offered : ∀ x, Reach head.settings.maxLines head.goal head.lines x →
    x.length ≤ head.settings.maxLines → ∀ found found',
    candidates Node.search ⟨x, head.goal, head.settings⟩ = .ok found →
    candidates Node.search ⟨x, head.goal, t⟩ = .ok found' →
    found.candidates = found'.candidates

variable {t : Settings} {left left' left₂ : Nat} {r : Run} {found : Found}

/-- A new node within the bound is expanded by both runs, with the same
candidates. -/
theorem Agree.expands (hagree : Agree head t) (h : InStep head past f f')
    (hf : Holds head (Waits head) f) (hexp : Expands head.goal head.settings f x rest)
    (hfound : candidates Node.search ⟨x, head.goal, head.settings⟩ = .ok found)
    (hnew : ¬ Known past x) :
    Expands head.goal t f' x (fresh (past ++ [x]) rest) ∧
      ∃ found', candidates Node.search ⟨x, head.goal, t⟩ = .ok found' ∧
        found.candidates = found'.candidates := by
  obtain ⟨hlines, -, hnum, hreach⟩ := hexp.expandable hf
  refine ⟨⟨h.queue_eq_cons hexp.queue hnew, hexp.incomplete, hagree.maxLines ▸ hexp.short⟩, ?_⟩
  obtain ⟨found', hfound'⟩ := exists_candidates (n := ⟨x, head.goal, t⟩) hnum
    (nestedAnswer_search hnum)
  exact ⟨found', hfound', hagree.offered x hreach hlines.short found found' hfound hfound'⟩

/-- Where the first run ends, the second ends in the same way. -/
theorem InStep.ends (h : InStep head past f f') (hagree : Agree head t)
    (hf : Holds head (Waits head) f) (hample : Ample head left f) (hleft : left ≤ left')
    (hpass : Passed Node.search head.goal head.settings left f (.ends r)) :
    (f'.run Node.search head.goal t left').ending = r.ending := by
  cases hpass with
  | exhausted hqueue hr =>
    have hqueue' : f'.queue.toList = [] := by rw [h.queue, hqueue, fresh]
    rw [run_of_empty hqueue', hr, hagree.maxLines, h.last]
  | complete hqueue hstates =>
    have hopen := (hf _ (by rw [hqueue]; exact List.mem_cons_self)).2.1.2
    exact absurd (states_eq_true_iff.mp hstates) hopen
  | spent hexp =>
    exact absurd rfl (hample.ne_zero hexp (hexp.expandable hf).2.2.1)
  | broke hexp hfound =>
    have hnum := (hexp.expandable hf).2.2.1
    obtain ⟨found, hok⟩ := exists_candidates (n := ⟨_, head.goal, head.settings⟩) hnum
      (nestedAnswer_search hnum)
    rw [hok] at hfound
    cases hfound
  | @finished left _ _ x rest found e hexp hfound he hr =>
    obtain ⟨hlines, -, -, hreach⟩ := hexp.expandable hf
    have hcloses := (hagree.finishes x hreach hlines.short).mp (finishes_of_find?_eq_some hfound he)
    obtain ⟨hexp', found', hfound', heq⟩ :=
      hagree.expands h hf hexp hfound (h.not_known hlines.short hcloses)
    obtain ⟨left', rfl⟩ := Nat.exists_eq_add_one_of_ne_zero (n := left') (by omega)
    rw [run_of_finish hexp' hfound' (heq ▸ he), hr]

/-- Where the first run goes on, the second stays where it is or goes on too. -/
theorem InStep.goesOn (h : InStep head past f f') (hagree : Agree head t)
    (hf : Holds head (Waits head) f) (hlevel : f.Leveled) (hleft : left ≤ left')
    (hgseen : g.seen = none)
    (hpass : Passed Node.search head.goal head.settings left f (.goesOn left₂ g)) :
    ∃ past₂ g' left₂', left₂ ≤ left₂' ∧ InStep head past₂ g g' ∧
      (f'.run Node.search head.goal t left').ending
        = (g'.run Node.search head.goal t left₂').ending := by
  cases hpass with
  | @discarded _ _ _ x hqueue hstates hlong _ hlast =>
    have hnum := (hf x (by rw [hqueue]; exact List.mem_cons_self)).2.1.1
    have hshort : ¬ x.length ≤ head.settings.maxLines := Nat.not_le.mpr hlong
    by_cases hknown : Known past x
    · exact ⟨past ++ [x], f', left', hleft,
        h.skip hqueue hlevel hnum hknown (fun hle => absurd hle hshort) (fun _ => rfl)
          (List.append_nil _).symm hgseen hlast, rfl⟩
    · obtain ⟨g', hg', hgseen', hglast', hrun⟩ := run_of_long Node.search left'
        (h.queue_eq_cons hqueue hknown) hstates (hagree.maxLines ▸ hlong)
      obtain ⟨seen, hseen, hseenAs⟩ := h.accounted
      refine ⟨past ++ [x], g', left', hleft, ?_, by rw [hrun]⟩
      refine h.next hqueue hlevel hnum (fun hle => absurd hle hshort) (List.append_nil _).symm
        hgseen hlast ?_ ⟨seen, hgseen'.trans hseen, ?_⟩ hglast'
      · rw [hg', List.append_nil]
      · rwa [List.append_nil]
  | @expanded left _ _ x rest found hexp hfound hnone hqueue _ hlast =>
    obtain ⟨hlines, -, hnum, hreach⟩ := hexp.expandable hf
    have hchildren := map_candidates_eq_children hexp hfound hnone
    rw [hchildren, h.unaccounted, admitted_none] at hqueue
    by_cases hknown : Known past x
    · -- only the first run expands `x`; the budget of the second stays the larger one
      have hlong : ¬ head.settings.maxLines < x.length := Nat.not_lt.mpr hlines.short
      exact ⟨past ++ [x], f', left', by omega,
        h.skip hexp.queue hlevel hnum hknown (fun _ => rfl) (fun hlt => absurd hlt hlong)
          hqueue hgseen hlast, rfl⟩
    · have hcloses : ¬ Closes head.bounds head.goal (formulas x) := by
        rw [← hagree.finishes x hreach hlines.short]
        exact not_finishes_of_find?_eq_none hnum hexp.incomplete (nestedAnswer_search hnum) hfound
          hnone
      obtain ⟨hexp', found', hfound', heq⟩ := hagree.expands h hf hexp hfound hknown
      obtain ⟨left', rfl⟩ := Nat.exists_eq_add_one_of_ne_zero (n := left') (by omega)
      obtain ⟨g', hg', hgseen', hglast', hrun⟩ := run_of_expand left' hexp' hfound' (heq ▸ hnone)
      obtain ⟨seen, hseen, hseenAs⟩ := h.accounted
      obtain ⟨hadmitted, seen', hnoted, hseenAs'⟩ :=
        admitted_eq_fresh hseenAs (children head.goal x)
      rw [← heq, hchildren, hseen] at hg' hgseen'
      refine ⟨past ++ [x], g', left', by omega, ?_, by rw [hrun]⟩
      refine h.next hexp.queue hlevel hnum (fun _ => ⟨hcloses, rfl⟩) hqueue hgseen hlast ?_
        ⟨seen', hgseen'.trans hnoted, hseenAs'⟩ hglast'
      -- what is admitted is new among the past nodes and all that waited
      rw [hg', hadmitted, fresh_append, hexp.queue, List.append_assoc]
      rfl

/-- **Both runs end in the same way.** -/
theorem run_inStep (hagree : Agree head t) (h : InStep head past f f') (hlevel : f.Leveled)
    (hf : Holds head (Waits head) f) (hample : Ample head left f) (hleft : left ≤ left') :
    (f'.run Node.search head.goal t left').ending
      = (f.run Node.search head.goal head.settings left).ending := by
  induction left, f using run_induction Node.search head.goal head.settings
    generalizing left' f' past with
  | ends left f r hpass => exact h.ends hagree hf hample hleft hpass
  | goesOn left f left₂ g hpass ih =>
    have hopen : Holds head (Open head) f := fun x hx => ⟨(hf x hx).1, (hf x hx).2.1⟩
    obtain ⟨hample₂, hgseen⟩ := hample.pass h.unaccounted hopen hpass
    obtain ⟨past₂, g', left₂', hleft₂, h₂, hrun⟩ := h.goesOn hagree hf hlevel hleft hgseen hpass
    rw [hrun]
    exact ih h₂ (hlevel.pass hpass) (hf.pass (keeps_waits head) hpass) hample₂ hleft₂

/-- At the start both runs have the same node. -/
theorem inStep_start (hoff : head.settings.dedupe.truthy = false)
    (hon : t.dedupe.truthy = true) :
    InStep head [] (start head) (start ⟨head.lines, head.goal, t⟩) where
  queue := by simp [start, fresh]
  unaccounted := by simp [start, hoff]
  accounted := by
    have hempty : SeenAs .empty [] := fun x => by simp [Known]
    refine ⟨Seen.empty.insert (formulas head.lines), by simp [start, hon], ?_⟩
    simpa [start] using hempty.insert head.lines
  last := rfl
  length_le := by simp
  numbered := by simp
  expanded := by simp

end Frontier

/-! ### Searches with and without an account of states -/

namespace Node

open Settings

variable {m k : Nat} {goal : Formula} {lines : List Line}

/-- Searches whose nested searches agree end in the same way. -/
theorem search_ending_eq (head : Node) {t : Settings} (hnum : Line.WellNumbered head.lines)
    (hoff : head.settings.dedupe.truthy = false) (hon : t.dedupe.truthy = true)
    (hiterations : head.settings.iterations ≤ t.iterations)
    (hcost : cost head.settings.maxLines head.goal head.lines ≤ head.settings.iterations)
    (hagree : Frontier.Agree head t) :
    (Node.search ⟨head.lines, head.goal, t⟩).ending = (Node.search head).ending := by
  rw [search_eq, search_eq, searchWith, searchWith]
  by_cases hgoal : head.goal ∈ formulas head.lines
  · have hstates := states_eq_true_iff.mpr hgoal
    rw [Frontier.run_of_complete rfl hstates, Frontier.run_of_complete rfl hstates]
  · refine Frontier.run_inStep hagree (Frontier.inStep_start hoff hon)
      (Frontier.leveled_start head) (Frontier.holds_start ?_) ?_ hiterations
    · exact ⟨⟨hnum, hgoal⟩, hnum, .refl _⟩
    · simpa [Frontier.Ample, Frontier.start] using hcost

/-- If all nested searches from a node end in the same way with and without an
account of states, so do the candidates. -/
theorem eventually_candidates_eq
    (hnested : ∀ (hypothesis : Line) (subgoal : Formula), hypothesis.number = lines.length →
      hypothesis.rule.closesBlock = false →
      Eventually (min k m) (min k m) fun s =>
        (Node.search ⟨lines ++ [hypothesis], subgoal, s.withDedupe true⟩).ending
          = (Node.search ⟨lines ++ [hypothesis], subgoal, s.withDedupe false⟩).ending) :
    Eventually m k fun s => ∀ found found',
      candidates Node.search ⟨lines, goal, s.withDedupe false⟩ = .ok found →
      candidates Node.search ⟨lines, goal, s.withDedupe true⟩ = .ok found' →
      found.candidates = found'.candidates := by
  have hdisj : Eventually m k fun s => ∀ l ∈ lines, ∀ a b, l.formula = .disj a b →
      ∀ side ∈ [a, b], SameEnding Node.search ⟨lines, goal, s.withDedupe false⟩
        (s.withDedupe true) (disjHypothesis ⟨lines, goal, s.withDedupe false⟩ l side) goal := by
    refine .forall_mem fun l _ => ?_
    by_cases hl : ∃ a b, l.formula = .disj a b
    · obtain ⟨a, b, hl⟩ := hl
      have hsides := Eventually.forall_mem (l := [a, b]) fun side _ =>
        (hnested (.ofHypothesis side .disjHypothesis lines.length [l.number]) goal rfl rfl).nested
      refine hsides.mono fun s _ _ hs a' b' hl' side hside => ?_
      obtain ⟨rfl, rfl⟩ := Formula.disj.inj (hl.symm.trans hl')
      exact (hs side hside).symm
    · exact .of_forall fun s _ _ a b h => absurd ⟨a, b, h⟩ hl
  have hcond : Eventually m k fun s => ∀ a b, goal = .imp a b →
      SameEnding Node.search ⟨lines, goal, s.withDedupe false⟩ (s.withDedupe true)
        (conditionalHypothesis ⟨lines, goal, s.withDedupe false⟩ a) b := by
    by_cases hgoal : ∃ a b, goal = .imp a b
    · obtain ⟨a, b, rfl⟩ := hgoal
      have hbody :=
        (hnested (.ofHypothesis a .conditionalHypothesis lines.length []) b rfl rfl).nested
      refine hbody.mono fun s _ _ hs a' b' hgoal => ?_
      obtain ⟨rfl, rfl⟩ := Formula.imp.inj hgoal
      exact hs.symm
    · exact .of_forall fun s _ _ a b h => absurd ⟨a, b, h⟩ hgoal
  refine (hdisj.and hcond).mono fun s _ _ hs found found' hfound hfound' => ?_
  exact candidates_eq_of_sameEnding hs.1 hs.2 hfound hfound'

/-- **With ample budgets an account of states does not change how a search
ends.**  Nested searches have less room, on which the recursion is. -/
theorem eventually_ending_eq {lines : List Line} (hregular : Line.Regular lines) (m k : Nat)
    (goal : Formula) :
    Eventually m k fun s => (Node.search ⟨lines, goal, s.withDedupe true⟩).ending
      = (Node.search ⟨lines, goal, s.withDedupe false⟩).ending := by
  -- the nodes of the search are finitely many, so one bound on budgets does for all
  have hfinishes : Eventually m k fun s => ∀ x, Reach m goal lines x → x.length ≤ m →
      (Finishes Node.search ⟨x, goal, s.withDedupe false⟩ ↔
        Closes (.of m k lines) goal (formulas x)) := by
    refine eventually_forall_reach fun x hx _ => ?_
    obtain ⟨hx, hbounds⟩ := hx.regular (k := k) hregular
    rw [← hbounds]
    exact eventually_finishes_iff hx m k goal
  have hcandidates : Eventually m k fun s => ∀ x, Reach m goal lines x → x.length ≤ m →
      ∀ found found', candidates Node.search ⟨x, goal, s.withDedupe false⟩ = .ok found →
        candidates Node.search ⟨x, goal, s.withDedupe true⟩ = .ok found' →
        found.candidates = found'.candidates := by
    refine eventually_forall_reach fun x hx hlen => eventually_candidates_eq ?_
    intro hypothesis subgoal hnumber hcloses
    have := hx.length_le
    exact eventually_ending_eq ((hx.regular (k := k) hregular).1.append_singleton hnumber hcloses)
      (min k m) (min k m) subgoal
  refine ((hfinishes.and hcandidates).and (.iterations (cost m goal lines))).mono
    fun s hm hk hs => ?_
  subst hm hk
  exact search_ending_eq ⟨lines, goal, s.withDedupe false⟩ hregular.numbered rfl rfl
    (Nat.le_refl _) hs.2 ⟨rfl, hs.1.1, hs.1.2⟩
termination_by m + 1 - lines.length
decreasing_by
  rw [List.length_append, List.length_singleton]
  omega

end Node

/-- **An account of states does not change the answer.**  Once the budgets of
expansions are large enough not to be spent, the search from assumptions finds
the same proof with an account of states and without, or halts for the same
reason. -/
theorem dedupe_keeps_answer (assumptions : List Formula) (goal : Formula) (m k : Nat) :
    ∃ N, ∀ s : Settings, s.maxLines = m → s.subMaxLines = k → N ≤ s.iterations →
      N ≤ s.subIterations →
      (∃ out, ∀ dedupe, (Node.search ⟨Line.ofAssumptions assumptions, goal,
        s.withDedupe dedupe⟩).ending = .proved out) ∨
      (∃ why, why ≠ .maximumIteration ∧ ∀ dedupe, (Node.search ⟨Line.ofAssumptions assumptions,
        goal, s.withDedupe dedupe⟩).ending = .halted why) := by
  have hregular := Line.Regular.ofAssumptions assumptions
  have hsame := (Node.eventually_ending_eq hregular m k goal).and
    (.iterations (Node.cost m goal (Line.ofAssumptions assumptions)))
  refine hsame.mono fun s hm _ hs => ?_
  subst hm
  obtain ⟨heq, hcost⟩ := hs
  have hspent := Node.search_not_spent
    ⟨Line.ofAssumptions assumptions, goal, s.withDedupe false⟩ hregular.numbered rfl hcost
  have hanswers := Node.answers_search ⟨Line.ofAssumptions assumptions, goal, s.withDedupe false⟩
    hregular.numbered
  rcases hend : (Node.search ⟨Line.ofAssumptions assumptions, goal, s.withDedupe false⟩).ending
    with out | why | fault
  · exact .inl ⟨out, Bool.forall_bool.mpr ⟨hend, heq.trans hend⟩⟩
  · rw [hend] at hspent
    refine .inr ⟨why, fun hwhy => hspent (by rw [hwhy]), ?_⟩
    exact Bool.forall_bool.mpr ⟨hend, heq.trans hend⟩
  · exact absurd hend (hanswers.unbroken fault)

theorem dedupe_keeps_answer_turnedDisjunction :
    ∃ s : Settings, s.maxLines = 2 ∧ s.subMaxLines = 2 ∧
      ∃ out, ∀ dedupe, (Node.search ⟨Line.ofAssumptions [.disj (.var "P") (.var "Q")],
        .disj (.var "Q") (.var "P"), s.withDedupe dedupe⟩).ending = .proved out := by
  obtain ⟨N, hN⟩ := dedupe_keeps_answer [.disj (.var "P") (.var "Q")]
    (.disj (.var "Q") (.var "P")) 2 2
  let s : Settings :=
    { maxLines := 2, iterations := N + 1, subMaxLines := 2, subIterations := N + 1
      iterations_pos := N.succ_pos, subIterations_pos := N.succ_pos }
  refine ⟨s, rfl, rfl, ?_⟩
  rcases hN s rfl rfl N.le_succ N.le_succ with hproved | ⟨why, -, hhalted⟩
  · exact hproved
  · -- under the smallest budgets there is a proof already
    have hfinished : (Node.search ⟨Line.ofAssumptions [.disj (.var "P") (.var "Q")],
        .disj (.var "Q") (.var "P"), tightBudgets⟩).status = .finished := by
      decide +kernel
    have hwithin : tightBudgets.Within (s.withDedupe false) :=
      ⟨Nat.le_refl 2, Nat.le_add_left 1 N, Nat.le_refl 2, Nat.le_add_left 1 N, rfl⟩
    obtain ⟨out, hout⟩ := Node.proves_mono _ _ (Line.wellNumbered_ofAssumptions _) hwithin
      (Run.exists_proved hfinished)
    rw [hhalted false] at hout
    cases hout

end NaturalDeduction
