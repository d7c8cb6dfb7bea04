import LogHarvest.Artifact.Sink

/-!
# What the operations on files come to

An operation on files looks its paths up and checks what it finds there.  Where it succeeds,
all checks have passed; the lemmas of this module list them, one lemma for each operation, so
that no other module takes an operation apart.
-/

namespace LogHarvest

theorem bind_eq_ok_iff {ε α β : Type} {x : Except ε α} {f : α → Except ε β} {b : β} :
    x >>= f = .ok b ↔ ∃ a, x = .ok a ∧ f a = .ok b := by
  cases x with
  | error fault => simp [bind, Except.bind]
  | ok a => simp [bind, Except.bind]

namespace Tree

variable {t t' : Tree} {path source destination : Path} {place : Place} {node : Node}

theorem hasFolder_eq_false {content : Text.Bytes} {runnable : Bool}
    (hfile : t.get? place = some (.file content runnable)) : t.hasFolder place = false := by
  rw [hasFolder, hfile]
  rfl

theorem ne_nil_of_hasFolder (hfolder : t.hasFolder place = false) : place ≠ [] := by
  rintro rfl
  cases hfolder

theorem target_eq_ok_iff :
    t.target path = .ok place ↔
      precheck path = .ok () ∧ t.walk (t.start path) path.components = .ok place := by
  unfold target
  rw [bind_eq_ok_iff]
  constructor
  · rintro ⟨⟨⟩, hwalk⟩
    exact hwalk
  · exact fun hwalk => ⟨(), hwalk⟩

theorem locate_eq_ok_iff :
    t.locate path = .ok (place, node) ↔
      t.target path = .ok place ∧ t.get? place = some node ∧
        (node ≠ .folder → path.endsInSlash = false) := by
  unfold locate
  rw [bind_eq_ok_iff]
  constructor
  · rintro ⟨found, htarget, hfound⟩
    cases hget : t.get? found with
    | none =>
        rw [hget] at hfound
        cases hfound
    | some other =>
        rw [hget] at hfound
        cases other with
        | folder =>
            cases hfound
            exact ⟨htarget, hget, fun hfile => absurd rfl hfile⟩
        | file content runnable =>
            dsimp only at hfound
            split at hfound
            · cases hfound
            · rename_i hslash
              cases hfound
              exact ⟨htarget, hget, fun _ => Bool.eq_false_iff.2 hslash⟩
  · rintro ⟨htarget, hget, hslash⟩
    refine ⟨place, htarget, ?_⟩
    rw [hget]
    cases node with
    | folder => rfl
    | file content runnable => exact if_neg (Bool.eq_false_iff.1 (hslash nofun))

theorem locate_eq_ok (hlocate : t.locate path = .ok (place, node)) :
    t.target path = .ok place ∧ t.get? place = some node :=
  ⟨(locate_eq_ok_iff.1 hlocate).1, (locate_eq_ok_iff.1 hlocate).2.1⟩

theorem read_eq_ok_iff_locate {content : Text.Bytes} :
    t.read path = .ok content ↔
      ∃ place runnable, t.locate path = .ok (place, .file content runnable) := by
  unfold read
  rw [bind_eq_ok_iff]
  constructor
  · rintro ⟨⟨place, node⟩, hlocate, hcontent⟩
    cases node with
    | folder => cases hcontent
    | file found runnable =>
        cases hcontent
        exact ⟨place, runnable, hlocate⟩
  · rintro ⟨place, runnable, hlocate⟩
    exact ⟨_, hlocate, rfl⟩

theorem openForWriting_eq_ok_iff :
    t.openForWriting path = .ok place ↔
      t.target path = .ok place ∧ path.endsInSlash = false ∧ t.hasFolder place = false := by
  unfold openForWriting
  rw [bind_eq_ok_iff]
  constructor
  · rintro ⟨found, htarget, hfound⟩
    split at hfound
    · cases hfound
    · rename_i haccepted
      cases hfound
      exact ⟨htarget, by simpa using haccepted⟩
  · rintro ⟨htarget, hslash, hfolder⟩
    refine ⟨place, htarget, if_neg ?_⟩
    rw [hslash, hfolder]
    exact Bool.false_ne_true

theorem create_eq_ok_iff {created : Tree} :
    t.create path = .ok (place, created) ↔
      t.openForWriting path = .ok place ∧
        created = t.put place (.file [] (t.runnableAt place)) := by
  unfold create
  rw [bind_eq_ok_iff]
  constructor
  · rintro ⟨found, hopen, hfound⟩
    cases hfound
    exact ⟨hopen, rfl⟩
  · rintro ⟨hopen, rfl⟩
    exact ⟨place, hopen, rfl⟩

theorem target_of_create {created : Tree} (hcreate : t.create path = .ok (place, created)) :
    t.target path = .ok place :=
  (openForWriting_eq_ok_iff.1 (create_eq_ok_iff.1 hcreate).1).1

theorem hasFolder_of_create {created : Tree} (hcreate : t.create path = .ok (place, created)) :
    t.hasFolder place = false :=
  (openForWriting_eq_ok_iff.1 (create_eq_ok_iff.1 hcreate).1).2.2

theorem makeFolder_eq_ok_iff :
    t.makeFolder path = .ok t' ↔
      ∃ place, t.target path = .ok place ∧ t.get? place = none ∧ t' = t.put place .folder := by
  unfold makeFolder
  rw [bind_eq_ok_iff]
  refine exists_congr fun place => and_congr_right fun _ => ?_
  cases t.get? place with
  | none => simp [eq_comm]
  | some node => simp

theorem rename_eq_ok_iff :
    t.rename source destination = .ok t' ↔
      ∃ origin node goal, t.locate source = .ok (origin, node) ∧
        t.target destination = .ok goal ∧ endsInName destination = true ∧
        (node ≠ .folder → destination.endsInSlash = false ∧ t.hasFolder goal = false) ∧
        t' = (t.remove origin).put goal node := by
  have hfile : ∀ {node : Node}, (node != .folder) = true ↔ node ≠ .folder := bne_iff_ne
  unfold rename
  rw [bind_eq_ok_iff]
  constructor
  · rintro ⟨⟨origin, node⟩, hlocate, hmoved⟩
    obtain ⟨goal, htarget, hmoved⟩ := bind_eq_ok_iff.1 hmoved
    split at hmoved
    · cases hmoved
    · rename_i hname
      split at hmoved
      · cases hmoved
      · rename_i hslash
        split at hmoved
        · cases hmoved
        · rename_i hfolder
          cases hmoved
          refine ⟨origin, node, goal, hlocate, htarget, by simpa using hname, fun hnode => ?_, rfl⟩
          rw [hfile.2 hnode, Bool.and_true, Bool.not_eq_true] at hslash hfolder
          exact ⟨hslash, hfolder⟩
  · rintro ⟨origin, node, goal, hlocate, htarget, hname, haccepted, rfl⟩
    refine ⟨_, hlocate, bind_eq_ok_iff.2 ⟨goal, htarget, ?_⟩⟩
    by_cases hnode : node = .folder
    · simp [hname, hnode]
    · obtain ⟨hslash, hfolder⟩ := haccepted hnode
      simp [hname, hslash, hfolder]

end Tree

/-!
## Outputs
-/

namespace Artifact.Sink

/-- What writing an output to a path ends in: no file, an empty one, or all of it. -/
inductive Wrote (path : Path) (id : String) (data : Text.Bytes) (t : Tree) (flaw : Option IoFault) :
    Except CollectFault Path × Tree → Prop
  | refused {cause : IoFault} (hcreate : t.create path = .error cause) :
      Wrote path id data t flaw (.error (.createFile path id cause), t)
  | emptied {place : Place} {created : Tree} {cause : IoFault}
      (hcreate : t.create path = .ok (place, created)) (hflaw : flaw = some cause) :
      Wrote path id data t flaw (.error (.writeFile path id cause), created)
  | filled {place : Place} {created : Tree} (hcreate : t.create path = .ok (place, created))
      (hflaw : flaw = none) :
      Wrote path id data t flaw (.ok path, created.fill place data)

theorem wrote_write (k : Sink) (suffix name : String) (data : Text.Bytes) (flaw : Option IoFault)
    (t : Tree) :
    Wrote (k.pathFor suffix name) k.id data t flaw (k.write suffix name data flaw t) := by
  unfold write
  dsimp only
  cases hcreate : t.create (k.pathFor suffix name) with
  | error cause => exact .refused hcreate
  | ok result =>
      cases flaw with
      | some cause => exact .emptied hcreate rfl
      | none => exact .filled hcreate rfl

end Artifact.Sink
end LogHarvest
