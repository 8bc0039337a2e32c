import Backtrack.Proofs.Collecting
import Backtrack.Proofs.MonadLaws

namespace Backtrack

variable {κ τ ω α : Type} {host : Host κ τ ω} {R : World ω → World ω → Prop}
  {f : Callable κ} {prepending : Value κ → Callable κ} {continuing : Alternative κ → Callable κ}
  {state value user : Value κ} {flag : Bool} {values items : List (Value κ)}
  {cs : List (Alternative κ)} {world next final first second : World ω} {outcome : Outcome κ}

namespace Host

def choose (host : Host κ τ ω) (f : Callable κ) (item : Value κ) : Exec κ ω (Program κ) := do
  match ← (host.invoke f [item]).sealed with
  | .alternative _ p => pure p
  | other => Exec.fail (.expectedAlternative .traverseResult other.typeName)

def GivesAlternatives (host : Host κ τ ω) (f : Callable κ) : Prop :=
  ∀ item produced world next, host.invoke f [item] world = .ok produced next →
    ∃ mark p, produced = .alternative mark p ∧ Alternative.GivesResults host ⟨p⟩

/-- Called with a value, `continuing rest` maps over `rest` a function that prepends the value. -/
structure Prepends (R : World ω → World ω → Prop) (host : Host κ τ ω)
    (prepending : Value κ → Callable κ) (continuing : Alternative κ → Callable κ) : Prop where
  continues : ∀ rest value first second, R first second → ∃ mark inner after,
    host.invoke (continuing rest) [value] second = .ok (.alternative mark
      (.generator inner (.bind rest.program (.injectAfter (prepending value))))) after ∧ R first after
  prepends : ∀ value items first second, R first second → ∃ after,
    host.invoke (prepending value) [.list items] second = .ok (.list (value :: items)) after ∧
      R first after

theorem Binds.givesAlternatives (hBinds : host.Binds R f) (hReflexive : ∀ world, R world world) :
    host.GivesAlternatives f := by
  intro item produced world next hInvoked
  have hMatched := hBinds item world world (hReflexive world)
  rw [hInvoked] at hMatched
  obtain ⟨_, _, _, hHeld, _⟩ := hMatched.of_ok
  cases hHeld with
  | mk _ hGives => exact ⟨_, _, rfl, hGives⟩

theorem choose_of_alternative {mark : Mark} {p : Program κ} {item : Value κ}
    (hInvoked : host.invoke f [item] world = .ok (.alternative mark p) next) :
    host.choose f item world = .ok p next :=
  Exec.bind_of_ok (Exec.sealed_of_ok hInvoked)

theorem choose_of_error {halt : Halt κ} {item : Value κ}
    (hInvoked : host.invoke f [item] world = .error halt next) :
    host.choose f item world = .error halt.sealed next :=
  Exec.bind_of_error (Exec.sealed_of_error hInvoked)

theorem runsChosen_choose_eq (hGives : host.GivesAlternatives f) (item : Value κ) :
    host.RunsChosen (host.choose f item) = host.Calls f item := by
  funext state world outcome final
  apply propext
  cases hInvoked : host.invoke f [item] world with
  | ok produced next =>
      obtain ⟨mark, p, rfl, _⟩ := hGives item produced world next hInvoked
      exact (RunsChosen.ran_iff (choose_of_alternative hInvoked)).trans (Calls.ran_iff hInvoked).symm
  | error halt next =>
      have hFailed := choose_of_error hInvoked
      cases halt with
      | raised exception => exact (RunsChosen.raised_iff hFailed).trans (Calls.raised_iff hInvoked).symm
      | exhausted =>
          exact iff_of_false (RunsChosen.not_of_exhausted hFailed) (Calls.not_of_exhausted hInvoked)

theorem calls_proper (hGives : host.GivesAlternatives f) (item user : Value κ) (flag : Bool)
    (world : World ω) : Outcomes.Proper (host.Calls f item (.pair user (.bool flag)) world) := by
  intro value last steps final hCalls
  generalize hReturned : Outcome.returned value last steps = outcome at hCalls
  cases hCalls with
  | ran hInvoked hRuns =>
      subst hReturned
      obtain ⟨mark, p, ⟨⟩, hResults⟩ := hGives item _ world _ (Exec.sealed_eq_ok.mp hInvoked)
      exact hResults user flag _ _ _ _ _ hRuns
  | stray | raised => cases hReturned

theorem runsChosen_pure_eq (c : Alternative κ) :
    host.RunsChosen (pure c.program) = c.program.Runs host := by
  funext state world outcome final
  exact propext (RunsChosen.ran_iff rfl)

end Host

namespace Frame

theorem sequenced_gathers (host : Host κ τ ω) :
    Gathers host (fun c : Alternative κ => pure c.program)
      (fun rest collected => .sequenced (rest.map Alternative.program) collected) where
  passes _ _ := ⟨fun _ _ => rfl, fun _ => rfl⟩
  goesOn rest collected value world := by
    cases rest <;> rfl

theorem traverseNext_eq_rowNext (host : Host κ τ ω) (f : Callable κ) (collected items : List (Value κ))
    (world : World ω) :
    traverseNext host f collected items world =
      rowNext (host.choose f) (fun rest collected => .traversed rest f collected) collected items
        world := by
  cases items with
  | nil => rfl
  | cons item rest =>
      cases hInvoked : host.invoke f [item] world with
      | ok produced next =>
          have hCalls : traverseNext host f collected (item :: rest) world =
              yieldAlternative .traverseResult (.traversed rest f collected) produced next :=
            Exec.bind_of_ok (Exec.sealed_of_ok hInvoked)
          rw [hCalls]
          by_cases hAlternative : ∃ mark p, produced = .alternative mark p
          · obtain ⟨mark, p, rfl⟩ := hAlternative
            rw [rowNext, Exec.bind_of_ok (Host.choose_of_alternative hInvoked)]
            rfl
          · have hStray : ∀ mark p, produced ≠ .alternative mark p :=
              fun mark p hSame => hAlternative ⟨mark, p, hSame⟩
            have hFails : host.choose f item world = Exec.fail
                (.expectedAlternative .traverseResult produced.typeName) next := by
              rw [Host.choose, Exec.bind_of_ok (Exec.sealed_of_ok hInvoked)]
              split
              · exact absurd rfl (hStray _ _)
              · rfl
            rw [yieldAlternative_of_stray hStray]
            exact (Exec.bind_of_error hFails).symm
      | error halt next =>
          have hCalls : traverseNext host f collected (item :: rest) world = .error halt.sealed next :=
            Exec.bind_of_error (Exec.sealed_of_error hInvoked)
          rw [hCalls]
          exact (Exec.bind_of_error (Host.choose_of_error hInvoked)).symm

theorem traversed_gathers (host : Host κ τ ω) (f : Callable κ) :
    Gathers host (host.choose f) (fun rest collected => .traversed rest f collected) where
  passes _ _ := ⟨fun _ _ => rfl, fun _ => rfl⟩
  goesOn rest collected value world := traverseNext_eq_rowNext host f (value :: collected) rest world

end Frame

namespace Alternative

open Outcomes

theorem sequence_goesThrough (hGives : ∀ c ∈ cs, c.GivesResults host) (hPair : state.IsStatePair)
    (world : World ω) :
    Program.GoesThrough host (fun c => c.program.Runs host) (fun c => pure c.program)
      (fun rest collected => .sequenced (rest.map program) collected) cs (sequence cs).program state
      world := by
  have hChosen : (fun c : Alternative κ => host.RunsChosen (pure c.program)) =
      fun c => c.program.Runs host := funext Host.runsChosen_pure_eq
  rw [← hChosen]
  apply (Frame.sequenced_gathers host).goesThrough _ _ hPair
  · intro c hWithin
    rw [Host.runsChosen_pure_eq]
    exact hGives c hWithin
  · intro world
    cases cs <;> rfl

theorem traverse_goesThrough (hGives : host.GivesAlternatives f) (items : List (Value κ))
    (hPair : state.IsStatePair) (world : World ω) :
    Program.GoesThrough host (host.Calls f) (host.choose f)
      (fun rest collected => .traversed rest f collected) items (traverse items f).program state
      world := by
  rw [← funext (Host.runsChosen_choose_eq hGives)]
  apply (Frame.traversed_gathers host f).goesThrough _ _ hPair
  · intro item _
    rw [Host.runsChosen_choose_eq hGives]
    exact Host.calls_proper hGives item
  · exact Frame.traverseNext_eq_rowNext host f [] items

/-- The right fold that binds each alternative to what prepends its value to those of the rest. -/
def foldBind (continuing : Alternative κ → Callable κ) (cs : List (Alternative κ)) : Alternative κ :=
  cs.foldr (fun c rest => bind c (continuing rest)) (inject (.list []))

section Fold

variable {E : α → Value κ → World ω → Outcomes κ ω} {row : List α} {element : α → Alternative κ}
  {rest : Alternative κ} {P : Outcomes κ ω} {inner : Mark} {collected : List (Value κ)}

theorem collects_cases (hCollects : Collects E collected row state world outcome final) :
    (∃ items left steps, outcome = .returned (.ok (.list items)) left steps) ∨ outcome.Stops := by
  cases hCollects with
  | gathered => exact .inl ⟨_, _, _, rfl⟩
  | stopped _ _ hStops => exact .inr (hStops.after _)

theorem collects_mapping_alike (hPrepends : host.Prepends R prepending continuing)
    (hAlike : Alike R (Collects E [] row state first) (rest.program.Runs host state second))
    (hProper : Proper (rest.program.Runs host state second)) :
    Alike R (Collects E [value] row state first)
      ((Program.generator inner (.bind rest.program (.injectAfter (prepending value)))).Runs host state
        second) := by
  have hRuns : Alike R
      (andThen (Collects E [] row state first) fun o next outcome final =>
        outcome = o.prepending [value] ∧ final = next)
      (andThen (rest.program.Runs host state second) (Sequel (host.Maps (prepending value)))) := by
    apply hAlike.andThen
    intro o next other last hCollects _ hSame hRelated
    rcases collects_cases hCollects with ⟨items, left, steps, rfl⟩ | hStops
    · obtain ⟨more, rfl⟩ := Outcome.returned_of_result hSame
      obtain ⟨after, hInvoked, hKept⟩ := hPrepends.prepends value items next last hRelated
      have hOnly : ∀ outcome final, Sequel (host.Maps (prepending value))
          (.returned (.ok (.list items)) left more) last outcome final ↔
          outcome = .returned (.ok (.list (value :: items))) left (more + 1) ∧ final = after := by
        intro outcome final
        rw [sequel_continued_iff, after_of_only fun _ _ => Host.Maps.mapped_iff hInvoked]
        rfl
      exact .of_only (fun _ _ => Iff.rfl) hOnly rfl hKept
    · rw [hStops.prepending]
      cases hStops with
      | failed =>
          obtain ⟨_, rfl⟩ := Outcome.returned_of_result hSame
          exact .of_only (fun _ _ => Iff.rfl) (fun _ _ => sequel_failed_iff) rfl hRelated
      | raised =>
          obtain rfl := Outcome.raised_of_result hSame
          exact .of_only (fun _ _ => Iff.rfl) (fun _ _ => sequel_raised_iff) rfl hRelated
  refine (hRuns.after_right 1).congr (fun outcome final => ?_) fun _ _ =>
    Program.bind_runs_iff_sequel (fun _ _ _ _ _ => Frame.mapping_comes_iff) hProper
  rw [← List.append_nil [value], collects_prepending_iff]
  constructor
  · rintro ⟨o, hCollects, rfl⟩
    exact ⟨o, final, hCollects, rfl, rfl⟩
  · rintro ⟨o, _, hCollects, rfl, rfl⟩
    exact ⟨o, hCollects, rfl⟩

theorem collects_foldBind_alike (hPrepends : host.Prepends R prepending continuing)
    (hProper : ∀ a ∈ row, ∀ user flag world, Proper (E a (.pair user (.bool flag)) world))
    (hGives : ∀ a ∈ row, (element a).GivesResults host)
    (hAlike : ∀ a ∈ row, ∀ user flag first second, R first second →
      Alike R (E a (.pair user (.bool flag)) first)
        ((element a).program.Runs host (.pair user (.bool flag)) second))
    (hRelated : R first second) :
    Alike R (Collects E [] row (.pair user (.bool flag)) first)
      ((foldBind continuing (row.map element)).program.Runs host (.pair user (.bool flag)) second) := by
  induction row generalizing user flag first second with
  | nil => exact .of_only (fun _ _ => collects_nil_iff) (fun _ _ => Program.pure_runs_iff) rfl hRelated
  | cons a row ih =>
      have hOfRest : ∀ b ∈ row, ∀ user flag world, Proper (E b (.pair user (.bool flag)) world) :=
        fun b hLater => hProper b (List.mem_cons_of_mem a hLater)
      have hHeads := (hAlike a (List.mem_cons_self ..) user flag first second hRelated)
      have hRuns : Alike R (Collects E [] (a :: row) (.pair user (.bool flag)) first)
          (andThen ((element a).program.Runs host (.pair user (.bool flag)) second)
            (Sequel (host.Calls (continuing (foldBind continuing (row.map element)))))) := by
        refine Alike.congr (hHeads.andThen ?_) (fun _ _ => collects_cons_iff) fun _ _ => Iff.rfl
        intro o next other last hComes _ hSame hKept
        apply Sequel.alike hSame _ hKept
        · intro value user flag steps hEnded
          obtain ⟨mark, inner, after, hInvoked, hOnward⟩ :=
            hPrepends.continues (foldBind continuing (row.map element)) value next last hKept
          have hTails : Alike R (Collects E [] row (.pair user (.bool flag)) next)
              ((foldBind continuing (row.map element)).program.Runs host (.pair user (.bool flag))
                after) :=
            ih hOfRest (fun b hLater => hGives b (List.mem_cons_of_mem a hLater))
              (fun b hLater => hAlike b (List.mem_cons_of_mem a hLater)) hOnward
          refine Alike.congr ?_ (fun _ _ => Iff.rfl) fun _ _ => Host.Calls.ran_iff hInvoked
          exact collects_mapping_alike hPrepends hTails
            (hTails.proper (collects_proper hOfRest (.mk user flag)))
        · rintro value left steps rfl
          exact hProper a (List.mem_cons_self ..) user flag first _ _ _ _ hComes
      exact (hRuns.after_right 1).congr (fun _ _ => Iff.rfl) fun _ _ =>
        bind_runs_iff (hGives a (List.mem_cons_self ..) user flag second)

end Fold

theorem sequence_runsLike_foldBind (hPrepends : host.Prepends R prepending continuing)
    (hGives : ∀ c ∈ cs, c.GivesResults host) (hAlike : ∀ c ∈ cs, c.RunsLike R host c) :
    (sequence cs).RunsLike R host (foldBind continuing cs) := by
  intro user flag first second hRelated
  have hFolds : Alike R
      (Collects (fun c => c.program.Runs host) [] cs (.pair user (.bool flag)) first)
      ((foldBind continuing (cs.map id)).program.Runs host (.pair user (.bool flag)) second) :=
    collects_foldBind_alike hPrepends hGives hGives hAlike hRelated
  rw [List.map_id] at hFolds
  exact (hFolds.after_left 1).congr
    (sequence_goesThrough hGives (.mk user flag) first).ends fun _ _ => Iff.rfl

theorem bind_inject_givesResults (hGives : host.GivesAlternatives f) (item : Value κ) :
    (bind (inject item) f).GivesResults host := by
  intro user flag world value state steps final hRuns
  obtain ⟨called, hCalls, hEnded⟩ := bind_inject_runs_iff.mp hRuns
  cases called with
  | raised => cases hEnded
  | returned =>
      cases hEnded
      exact Host.calls_proper hGives item user flag world _ _ _ _ hCalls

theorem traverse_runsLike_foldBind (hPrepends : host.Prepends R prepending continuing)
    (hGives : host.GivesAlternatives f) (hBinds : host.Binds R f) (items : List (Value κ)) :
    (traverse items f).RunsLike R host
      (foldBind continuing (items.map fun item => bind (inject item) f)) := by
  intro user flag first second hRelated
  have hFolds : Alike R (Collects (host.Calls f) [] items (.pair user (.bool flag)) first)
      ((foldBind continuing (items.map fun item => bind (inject item) f)).program.Runs host
        (.pair user (.bool flag)) second) := by
    apply collects_foldBind_alike hPrepends (fun item _ => Host.calls_proper hGives item)
      (fun item _ => bind_inject_givesResults hGives item) _ hRelated
    intro item _ user flag first second hRelated
    exact ((hBinds.calls_alike hRelated).after_right 2).congr (fun _ _ => Iff.rfl)
      fun _ _ => bind_inject_runs_iff
  exact (hFolds.after_left 1).congr
    (traverse_goesThrough hGives items (.mk user flag) first).ends fun _ _ => Iff.rfl

def concatenating (host : Host κ τ ω) (cs : List (Alternative κ)) (value state : Value κ)
    (world : World ω) : Outcomes κ ω :=
  fun outcome final => ∃ items inner, value = .list items ∧
    (sequence cs).program.Runs host state world inner final ∧ outcome = inner.prepending items

theorem sequence_append_alike {others : List (Alternative κ)}
    (hGives : ∀ c ∈ cs ++ others, c.GivesResults host) (user : Value κ) (flag : Bool) (world : World ω) :
    Alike Eq ((sequence (cs ++ others)).program.Runs host (.pair user (.bool flag)) world)
      (andThen ((sequence cs).program.Runs host (.pair user (.bool flag)) world)
        (Sequel (concatenating host others))) := by
  have hOfFirst : ∀ c ∈ cs, c.GivesResults host := fun c hEarly => hGives c (List.mem_append_left _ hEarly)
  have hOfOthers : ∀ c ∈ others, c.GivesResults host :=
    fun c hLater => hGives c (List.mem_append_right _ hLater)
  have hBegins := (Alike.refl (Collects (fun c : Alternative κ => c.program.Runs host) [] cs
    (.pair user (.bool flag)) world)).after_right 1
  have hGoesOn : ∀ (items : List (Value κ)) user flag world,
      Alike Eq (Collects (fun c : Alternative κ => c.program.Runs host) items others
          (.pair user (.bool flag)) world)
        (concatenating host others (.list items) (.pair user (.bool flag)) world) := by
    intro items user flag world
    have hEnds := (sequence_goesThrough hOfOthers (.mk user flag) world).ends
    constructor
    · intro outcome final hCollects
      rw [← List.append_nil items, collects_prepending_iff] at hCollects
      obtain ⟨inner, hCollects, rfl⟩ := hCollects
      refine ⟨_, final, ⟨items, inner.after 1, rfl, (hEnds _ _).mpr ⟨inner, hCollects, rfl⟩, rfl⟩, ?_, rfl⟩
      rw [Outcome.prepending_after, Outcome.result_after]
    · rintro _ final ⟨_, _, ⟨⟩, hRuns, rfl⟩
      obtain ⟨inner, hCollects, rfl⟩ := (hEnds _ _).mp hRuns
      refine ⟨inner.prepending items, final, ?_, ?_, rfl⟩
      · rw [← List.append_nil items, collects_prepending_iff]
        exact ⟨inner, hCollects, by rw [List.append_nil]⟩
      · rw [Outcome.prepending_after, Outcome.result_after]
  have hWhole := hBegins.andThen (S := Sequel fun value left next outcome final =>
      ∃ items, value = .list items ∧
        Collects (fun c : Alternative κ => c.program.Runs host) items others left next outcome final)
    (T := Sequel (concatenating host others)) fun o next other last hCollects _ hSame hRelated => by
      apply Sequel.alike hSame _ hRelated
      · rintro value user flag steps rfl
        subst hRelated
        rcases collects_cases hCollects with ⟨items, _, _, ⟨⟩⟩ | hStops
        · refine (hGoesOn items user flag next).congr (fun _ _ => ?_) fun _ _ => Iff.rfl
          exact ⟨fun ⟨_, hGiven, hRest⟩ => by cases hGiven; exact hRest, fun hRest => ⟨items, rfl, hRest⟩⟩
        · cases hStops
      · rintro value left steps rfl
        exact collects_proper hOfFirst (.mk user flag) _ _ _ _ hCollects
  refine (hWhole.after_left 1).congr (fun outcome final => ?_) fun outcome final => ?_
  · rw [(sequence_goesThrough hGives (.mk user flag) world).ends]
    exact exists_congr fun inner => and_congr_left fun _ => collects_append_iff
  · exact exists_congr fun first => exists_congr fun next =>
      and_congr_left fun _ => (sequence_goesThrough hOfFirst (.mk user flag) world).ends first next

/-- Both `sequence` and `traverse` run like the fold of bind over their row, and go through that in order. So a
sequence runs like any first part of it and then the others from the pair that this left. -/
theorem collecting_folds_bind (hReflexive : ∀ world, R world world)
    (hPrepends : host.Prepends R prepending continuing) (hGives : ∀ c ∈ cs, c.GivesResults host)
    (hAlike : ∀ c ∈ cs, c.RunsLike R host c) (hBinds : host.Binds R f) (items : List (Value κ))
    (user : Value κ) (flag : Bool) (world : World ω) :
    (sequence cs).RunsLike R host (foldBind continuing cs) ∧
    Program.GoesThrough host (fun c => c.program.Runs host) (fun c => pure c.program)
      (fun rest collected => .sequenced (rest.map program) collected) cs (sequence cs).program
      (.pair user (.bool flag)) world ∧
    (∀ xs ys, cs = xs ++ ys →
      Alike Eq ((sequence cs).program.Runs host (.pair user (.bool flag)) world)
        (andThen ((sequence xs).program.Runs host (.pair user (.bool flag)) world)
          (Sequel (concatenating host ys)))) ∧
    (traverse items f).RunsLike R host
      (foldBind continuing (items.map fun item => bind (inject item) f)) ∧
    Program.GoesThrough host (host.Calls f) (host.choose f)
      (fun rest collected => .traversed rest f collected) items (traverse items f).program
      (.pair user (.bool flag)) world := by
  have hCalled := hBinds.givesAlternatives hReflexive
  refine ⟨sequence_runsLike_foldBind hPrepends hGives hAlike,
    sequence_goesThrough hGives (.mk user flag) world, ?_,
    traverse_runsLike_foldBind hPrepends hCalled hBinds items,
    traverse_goesThrough hCalled items (.mk user flag) world⟩
  rintro xs ys rfl
  exact sequence_append_alike hGives user flag world

end Alternative

inductive Folded where
  | logged
  | prepend (value : Value Folded)
  | prependAfter (rest : Program Folded)

namespace Host

def folder : Host Folded Empty (List (Value Folded)) where
  debug := false
  call
    | .logged, [value] => do
        modify fun world => { world with host := value :: world.host }
        Exec.giveOut
          (if value.isTrue then Alternative.inject value else Alternative.error value).toValue
    | .prepend value, [.list items] => pure (.list (value :: items))
    | .prependAfter rest, [value] =>
        Exec.giveOut (Alternative.fmap (.code none (.prepend value)) ⟨rest⟩).toValue
    | _, _ => pure .null
  start _ _ := pure (.value .null)
  spawn _ _ := throw .exhausted
  resume := nofun
  close := nofun

def SameCalls (first second : World (List (Value Folded))) : Prop := first.host = second.host

theorem folder_prepends : folder.Prepends SameCalls (fun value => .code none (.prepend value))
    fun rest => .code none (.prependAfter rest.program) where
  continues _ _ _ second hRelated := ⟨some second.nextMark, some second.nextMark, _, rfl, hRelated⟩
  prepends _ _ _ second hRelated := ⟨second, rfl, hRelated⟩

theorem folder_binds : folder.Binds SameCalls (.code none .logged) := by
  intro value first second hRelated
  have hLogged : value :: first.host = value :: second.host := congrArg (value :: ·) hRelated
  show Exec.MatchesBy _ _ (folder.call .logged [value] first) (folder.call .logged [value] second)
  simp only [folder]
  cases value.isTrue with
  | true =>
      exact .ok (.mk (Alternative.inject_runsLike folder value)
        (Alternative.inject_givesResults folder value)
        (Alternative.inject_givesResults folder value)) hLogged
  | false =>
      exact .ok (.mk (Alternative.error_runsLike folder value)
        (Alternative.error_givesResults folder value)
        (Alternative.error_givesResults folder value)) hLogged

end Host

namespace Alternative

/-- The item after the one that fails is not called with. -/
theorem collecting_folds_bind_of_folder :
    (sequence [inject (.int 1), inject (.int 1), error (.int 2)]).RunsLike Host.SameCalls Host.folder
      (foldBind (fun rest => .code none (.prependAfter rest.program))
        [inject (.int 1), inject (.int 1), error (.int 2)]) ∧
    ∃ steps final,
      (foldBind (fun rest => .code none (.prependAfter rest.program))
        ([.int 1, .int 0, .int 3].map fun item => bind (inject item) (.code none .logged))).program.Runs
        Host.folder (.pair (.int 5) (.bool false)) ⟨[], #[], 0⟩
        (.returned (.failWith (.int 0)) (.pair (.int 5) (.bool false)) steps) final ∧
      final.host = [.int 0, .int 1] := by
  have hGives : ∀ c ∈ [inject (.int 1), inject (.int 1), error (.int 2)],
      c.GivesResults Host.folder := by
    simp [Alternative.inject_givesResults, error, Alternative.error_givesResults]
  have hAlike : ∀ c ∈ [inject (.int 1), inject (.int 1), error (.int 2)],
      c.RunsLike Host.SameCalls Host.folder c := by
    simp [Alternative.inject_runsLike, error, Alternative.error_runsLike]
  obtain ⟨hFolds, _, _, hTraverses, _⟩ := collecting_folds_bind (R := Host.SameCalls) (fun _ => rfl)
    Host.folder_prepends hGives hAlike Host.folder_binds [.int 1, .int 0, .int 3] (.int 5) false
    ⟨[], #[], 0⟩
  refine ⟨hFolds, ?_⟩
  have hRuns : (traverse [.int 1, .int 0, .int 3] (.code none .logged)).program.Runs Host.folder
      (.pair (.int 5) (.bool false)) ⟨[], #[], 0⟩
      (.returned (.failWith (.int 0)) (.pair (.int 5) (.bool false)) 4) ⟨[.int 0, .int 1], #[], 2⟩ :=
    ⟨20, rfl⟩
  obtain ⟨other, last, hComes, hSame, hLogged⟩ :=
    (hTraverses (.int 5) false ⟨[], #[], 0⟩ ⟨[], #[], 0⟩ rfl).into _ _ hRuns
  obtain ⟨steps, rfl⟩ := Outcome.returned_of_result hSame
  exact ⟨steps, last, hComes, hLogged.symm⟩

end Alternative

end Backtrack
