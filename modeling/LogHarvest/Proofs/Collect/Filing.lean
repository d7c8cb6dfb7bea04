import LogHarvest.Collect.Collector
import LogHarvest.Proofs.Artifact.PathStart

/-!
# Which paths a collector lists

Whatever answers a collector gets, it keeps its task, and the paths that it lists
are those of the names that its sink handed out, in order.  While an output is being
saved, the latest name has no path yet.
-/

namespace LogHarvest
namespace Collector

/-!
## The task of a collector
-/

structure SameTask (c c' : Collector) : Prop where
  group : c'.group = c.group
  subject : c'.subject = c.subject
  stages : c'.stages = c.stages
  folder : c'.sink.folder = c.sink.folder
  mark : c'.sink.mark = c.sink.mark

theorem sameTask_digest (c : Collector) (errand : Errand) (rest : List Errand)
    (paths : List Path) (output : Text.Bytes) :
    c.SameTask (c.digest errand rest paths output) := by
  unfold digest
  split <;> exact ⟨rfl, rfl, rfl, rfl, rfl⟩

theorem sameTask_resume (c : Collector) (answer : Response) : c.SameTask (c.resume answer) := by
  unfold resume
  split
  case h_7 => exact sameTask_digest _ _ _ _ _
  all_goals exact ⟨rfl, rfl, rfl, rfl, rfl⟩

theorem record?_eq_some_iff {c : Collector} {r : Record} :
    c.record? = some r ↔
      c.phase = .finished r.outcome ∧ r.group = c.group ∧ r.id = c.subject.id := by
  unfold record?
  split
  · rename_i result hphase
    rw [hphase]
    constructor
    · intro h
      cases h
      exact ⟨rfl, rfl, rfl⟩
    · rintro ⟨hresult, hgroup, hid⟩
      cases r
      cases hresult
      cases hgroup
      cases hid
      rfl
  · rename_i hphase
    constructor
    · intro h
      cases h
    · rintro ⟨hfinished, -, -⟩
      exact absurd hfinished (hphase _)

/-!
## Names and paths
-/

def pathsOf (pathFor : (n : Nat) → (name : String) → Path) : List String → List Path
  | [] => []
  | name :: earlier => pathsOf pathFor earlier ++ [pathFor (earlier.length + 1) name]

theorem mem_pathsOf {pathFor : Nat → String → Path} {claimed : List String} {p : Path} :
    p ∈ pathsOf pathFor claimed ↔
      ∃ n name, claimed.reverse[n]? = some name ∧ p = pathFor (n + 1) name := by
  induction claimed with
  | nil => simp [pathsOf]
  | cons latest earlier ih =>
      rw [pathsOf, List.mem_append, ih, List.mem_singleton, List.reverse_cons]
      constructor
      · intro hcases
        rcases hcases with ⟨n, name, hname, hp⟩ | hp
        · have hn := (List.getElem?_eq_some_iff.1 hname).1
          exact ⟨n, name, by rw [List.getElem?_append_left hn, hname], hp⟩
        · refine ⟨earlier.length, latest, ?_, hp⟩
          rw [List.getElem?_append_right (by simp)]
          simp
      · rintro ⟨n, name, hname, hp⟩
        by_cases hn : n < earlier.reverse.length
        · rw [List.getElem?_append_left hn] at hname
          exact Or.inl ⟨n, name, hname, hp⟩
        · have hlast : n = earlier.length ∧ name = latest := by
            have hlt := (List.getElem?_eq_some_iff.1 hname).1
            simp only [List.length_append, List.length_reverse, List.length_singleton] at hlt hn
            have hn : n = earlier.length := by omega
            subst hn
            rw [List.getElem?_append_right (by simp)] at hname
            simp only [List.length_reverse, Nat.sub_self, List.getElem?_cons_zero,
              Option.some.injEq] at hname
            exact ⟨rfl, hname.symm⟩
          rw [hp, hlast.1, hlast.2]
          exact Or.inr rfl

def Filing (pathFor : Nat → String → Path) (c : Collector) : Prop :=
  match c.phase with
  | .entering | .connecting => c.sink.claimed = []
  | .between _ _ paths | .running _ _ paths => paths = pathsOf pathFor c.sink.claimed
  | .saving name _ _ paths =>
      ∃ earlier, c.sink.claimed = name :: earlier ∧ paths = pathsOf pathFor earlier
  | .closing result | .finished result =>
      ∀ paths, result = .ok paths → paths = pathsOf pathFor c.sink.claimed

variable {pathFor : Nat → String → Path} {c : Collector}

theorem filing_of_phase {result : Collected} (hphase : c.phase = .finished result)
    (hfiling : c.Filing pathFor) {paths : List Path} (hok : result = .ok paths) :
    paths = pathsOf pathFor c.sink.claimed := by
  unfold Filing at hfiling
  rw [hphase] at hfiling
  exact hfiling paths hok

theorem filing_proceed {todo : List Errand} {paths : List Path}
    (hpaths : paths = pathsOf pathFor c.sink.claimed) :
    ({ c with phase := proceed todo paths } : Collector).Filing pathFor := by
  cases todo with
  | nil =>
      intro paths' hok
      cases hok
      exact hpaths
  | cons errand rest => exact hpaths

theorem filing_digest {errand : Errand} {rest : List Errand} {paths : List Path}
    (hpaths : paths = pathsOf pathFor c.sink.claimed) (output : Text.Bytes) :
    (c.digest errand rest paths output).Filing pathFor := by
  cases errand with
  | keep command => exact ⟨c.sink.claimed, rfl, hpaths⟩
  | explore discovery => exact filing_proceed hpaths

theorem filing_resume {answer : Response} (hfiling : c.Filing pathFor)
    (hsaved : ∀ path name data rest paths, answer = .saved (.ok path) →
      c.phase = .saving name data rest paths → path = pathFor c.sink.claimed.length name) :
    (c.resume answer).Filing pathFor := by
  have hbefore := hfiling
  unfold Filing at hfiling
  unfold resume
  split
  · rename_i hphase
    rw [hphase] at hfiling
    exact hfiling
  · exact nofun
  · rename_i hphase
    rw [hphase] at hfiling
    have hclaimed : c.sink.claimed = [] := hfiling
    exact filing_proceed (by rw [hclaimed]; rfl)
  · exact nofun
  · rename_i hphase
    rw [hphase] at hfiling
    exact hfiling
  · exact nofun
  · rename_i hphase
    rw [hphase] at hfiling
    exact filing_digest hfiling _
  · exact nofun
  · rename_i name data rest paths path hphase
    rw [hphase] at hfiling
    obtain ⟨earlier, hclaimed, hpaths⟩ := hfiling
    have hpath := hsaved path name data rest paths rfl hphase
    refine filing_proceed ?_
    rw [hclaimed, pathsOf, ← hpaths, hpath, hclaimed]
    rfl
  · exact nofun
  · rename_i result hphase
    rw [hphase] at hfiling
    exact hfiling
  · exact hbefore

end Collector
end LogHarvest
