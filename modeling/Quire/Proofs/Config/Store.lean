import Quire.Config.Store
import Quire.Proofs.Config.Text
import Quire.Proofs.Tree.Growth
import Quire.Proofs.Workspace

/-!
# A configuration that was kept is found again

Keeping a configuration makes the directories above its file and writes the file. Where this can be done,
it is done, and **what is loaded from the path after is the configuration that was kept**
(`load_of_save`), whatever stood there before.
-/

namespace Quire.Config

open Quire.Tree (placeOf)

variable {c : Config} {path : String} {t u : Tree} {w v : Workspace}

/-! ## 1. Loading -/

theorem fromUTF8?_toUTF8 (s : String) : String.fromUTF8? s.toUTF8 = some s := by
  rw [String.fromUTF8?, String.toUTF8_eq_toByteArray, dif_pos s.isValidUTF8]
  rfl

/-- What a file holds is loaded as the configuration that it is the text of. -/
theorem loadFile_of_readText {s : String} (h : t.readText path = .ok s) (hc : ofText s = some c) :
    loadFile path t = .ok (some c) := by
  have hentry : t.hasEntry path = true := by
    rw [Tree.readText] at h
    cases hbytes : t.readBytes path with
    | error e =>
        rw [hbytes] at h
        cases h
    | ok b =>
        obtain ⟨p, hl⟩ := Tree.readBytes_eq_ok.1 hbytes
        rw [Tree.hasEntry, hl]
  rw [loadFile, hentry, h]
  simp only [Bool.not_true, Bool.false_eq_true, if_false, hc]

/-- **A text that was written is read.** -/
theorem readText_of_canWrite {s : String} (h : t.CanWrite path) :
    (t.putFile (placeOf path) s.toUTF8).readText path = .ok s := by
  rw [Tree.readText, Tree.readBytes, h.locate_putFile]
  simp only [fromUTF8?_toUTF8]

/-! ## 2. Keeping -/

/-- Whether a file can be kept at a path: the directories above it are there or can be made, and it can
then be written. -/
def CanKeep (t : Tree) (path : String) : Prop :=
  (t.makeParents path).2 = none ∧ (t.makeParents path).1.CanWrite path

theorem save_def (c : Config) (path : String) : c.save path =
    (Action.changeStepwise (Tree.makeParents · path) >>= fun _ =>
      Action.change (Tree.writeText · path c.text)) :=
  rfl

/-- **A configuration is kept where this can be done, and nowhere else.** -/
theorem save_eq_ok {x : Unit} : (c.save path).runOn w = (.ok x, v) ↔
    CanKeep w.tree path ∧
      v = { w with tree := (w.tree.makeParents path).1.putFile (placeOf path) c.text.toUTF8 } := by
  rw [save_def, Action.bind_eq_ok]
  generalize c.text = s
  constructor
  · rintro ⟨_, w', hmake, hwrite⟩
    rw [Action.changeStepwise_eq_ok] at hmake
    obtain ⟨hnone, rfl⟩ := hmake
    rw [Action.change_eq_ok] at hwrite
    obtain ⟨t, ht, rfl⟩ := hwrite
    dsimp only at ht
    rw [Tree.writeText, Tree.write_eq_ok] at ht
    obtain ⟨hcan, rfl⟩ := ht
    exact ⟨⟨hnone, hcan⟩, rfl⟩
  · rintro ⟨⟨hnone, hcan⟩, rfl⟩
    have hmade : (Action.changeStepwise (Tree.makeParents · path)).runOn w =
        (.ok (), { w with tree := (w.tree.makeParents path).1 }) :=
      Action.changeStepwise_eq_ok.2 ⟨hnone, rfl⟩
    have hwritten : (w.tree.makeParents path).1.writeText path s =
        .ok ((w.tree.makeParents path).1.putFile (placeOf path) s.toUTF8) := by
      rw [Tree.writeText, Tree.write_eq_ok]
      exact ⟨hcan, rfl⟩
    refine ⟨(), _, hmade, ?_⟩
    rw [Action.change_eq_ok]
    dsimp only
    exact ⟨_, hwritten, rfl⟩

/-- A configuration that was kept is loaded again. -/
theorem loadFile_of_save {x : Unit} (h : (c.save path).runOn w = (.ok x, v)) :
    loadFile path v.tree = .ok (some c) := by
  obtain ⟨⟨-, hcan⟩, rfl⟩ := save_eq_ok.1 h
  exact loadFile_of_readText (readText_of_canWrite hcan) (ofText_text c)

/-- **A configuration that was kept is loaded again, and from a file that has some of its lines alone, these
settings are**, with the others as for a build that nothing is asked of. -/
theorem load_of_save (c : Config) (path : String) (w : Workspace) :
    (CanKeep w.tree path → ∃ v, (c.save path).runOn w = (.ok (), v)) ∧
      (∀ v, (c.save path).runOn w = (.ok (), v) → loadFile path v.tree = .ok (some c)) ∧
      ∀ kept t, t.readText path = .ok (c.keptText kept) →
        loadFile path t = .ok (some (c.keep kept)) := by
  refine ⟨fun h => ⟨_, save_eq_ok.2 ⟨h, rfl⟩⟩, fun v h => loadFile_of_save h, fun kept t h => ?_⟩
  exact loadFile_of_readText h (ofText_keptText c kept)

/-- A configuration whose strings are written in different forms. -/
def sampleConfig : Config where
  outputDirectory := "'a' and \"b\"\\\n"
  excludedDirectories := []
  skippedFiles := ["\t'"]
  imagePatterns := ["", "\"\"\"\r"]
  codeLanguage := "'''\""

theorem canKeep_sample : CanKeep .empty "a/b.toml" :=
  ⟨by decide +kernel, .of_isSome (c := .empty) (by decide +kernel)⟩

/-- Kept where the directory has to be made, and loaded again; from an empty file nothing is. -/
theorem load_of_save_sample :
    (∃ v, (sampleConfig.save "a/b.toml").runOn ⟨.empty, []⟩ = (.ok (), v) ∧
      loadFile "a/b.toml" v.tree = .ok (some sampleConfig)) ∧
    ∃ t : Tree, t.readText "b.toml" = .ok "" ∧ loadFile "b.toml" t = .ok (some {}) := by
  obtain ⟨hsave, hload, -⟩ := load_of_save sampleConfig "a/b.toml" ⟨.empty, []⟩
  obtain ⟨v, hv⟩ := hsave canKeep_sample
  have hempty : Tree.CanWrite .empty "b.toml" := .of_isSome (c := .empty) (by decide +kernel)
  have hread := readText_of_canWrite (s := "") hempty
  obtain ⟨-, -, hkept⟩ := load_of_save sampleConfig "b.toml" ⟨.empty, []⟩
  exact ⟨⟨v, hv, hload v hv⟩, _, hread, hkept (fun _ => false) _ hread⟩

end Quire.Config
