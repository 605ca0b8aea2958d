import Larder.Journal
import Larder.Proofs.Walks

/-! What opening a file for appending does to a tree. A path that leads to a file leads there for
appending as well, and nothing is made. Where something has to be made, no file that is there
changes, and the new one is empty. -/

namespace Larder

namespace Node

theorem lookup_filter_ne {n m : Bytes} (h : m ≠ n) (entries : List (Bytes × Node)) :
    (entries.filter fun (k, _) => k ≠ n).lookup m = entries.lookup m := by
  induction entries with
  | nil => rfl
  | cons e entries ih =>
    obtain ⟨k, node⟩ := e
    by_cases hk : k = n
    · have hm : (m == k) = false := beq_false_of_ne (hk ▸ h)
      rw [List.filter_cons_of_neg (by simpa using hk), ih, List.lookup_cons, hm]
    · rw [List.filter_cons_of_pos (by simpa using hk), List.lookup_cons, List.lookup_cons, ih]

theorem lookup_setChild (n m : Bytes) (node : Node) (entries : List (Bytes × Node)) :
    (setChild n node entries).lookup m = if m = n then some node else entries.lookup m := by
  rw [setChild, List.lookup_cons]
  split
  · rename_i h
    rw [if_pos (by simpa using h)]
  · rename_i h
    have hm : m ≠ n := by simpa using h
    rw [if_neg hm, lookup_filter_ne hm]

/-- What is put into a directory stands there. -/
theorem at?_put {node place : Node} {l : Location} (h : node.at? l = some place)
    (hdir : place.isDirectory = true) (n : Bytes) (inner : Node) :
    (node.put (l ++ [n]) inner).at? (l ++ [n]) = some inner := by
  induction l generalizing node with
  | nil =>
    obtain rfl : node = place := Option.some.inj h
    cases node with
    | file bytes => cases hdir
    | directory entries => simp [put, at?, child?, lookup_setChild]
  | cons m l ih =>
    cases node with
    | file bytes => cases h
    | directory entries =>
      rw [at?, child?] at h
      cases hm : entries.lookup m with
      | none =>
        rw [hm] at h
        cases h
      | some below =>
        rw [hm] at h
        simpa [put, at?, child?, lookup_setChild, hm] using ih h

/-- The bytes of the file at a place; none if there is no file. -/
def held (node : Node) (l : Location) : Bytes :=
  match node.at? l with
  | some (.file bytes) => bytes
  | _ => []

@[simp]
theorem held_directory_nil (entries : List (Bytes × Node)) : (directory entries).held [] = [] := rfl

@[simp]
theorem held_file_cons (bytes n : Bytes) (l : Location) : (file bytes).held (n :: l) = [] := rfl

@[simp]
theorem held_directory_cons (entries : List (Bytes × Node)) (n : Bytes) (l : Location) :
    (directory entries).held (n :: l) = ((entries.lookup n).getD (directory [])).held l := by
  rw [held, at?, child?]
  cases entries.lookup n with
  | none => cases l <;> rfl
  | some node => rfl

/-- Holds no bytes anywhere. -/
def Bare (node : Node) : Prop := ∀ l, node.held l = []

theorem bare_file_nil : (file []).Bare := by
  intro l
  cases l <;> rfl

theorem bare_directory_nil : (directory []).Bare := by
  intro l
  cases l <;> rfl

/-- A bare node in a place where there was nothing changes no file. -/
theorem held_put_of_none {node fresh : Node} (hbare : fresh.Bare) {l : Location}
    (hnone : node.at? l = none) (l' : Location) : (node.put l fresh).held l' = node.held l' := by
  induction l generalizing node l' with
  | nil => cases hnone
  | cons n l ih =>
    cases node with
    | file bytes => rfl
    | directory entries =>
      cases l' with
      | nil => rfl
      | cons m l' =>
        rw [put, held_directory_cons, held_directory_cons, lookup_setChild]
        split
        · rename_i hm
          subst hm
          rw [at?, child?] at hnone
          cases hn : entries.lookup m with
          | some below =>
            rw [hn] at hnone
            exact ih hnone l'
          | none =>
            rw [Option.getD_none, Option.getD_some]
            cases l with
            | nil => exact (hbare l').trans (bare_directory_nil l').symm
            | cons k l => exact ih rfl l'
        · rfl

end Node

namespace Tree

variable {t : Tree}

theorem find_of_walk {p : Path} {trail : Trail} (hne : p.bytes ≠ [])
    (hobstacle : p.obstacle? = none) (hwalk : t.walk p.parts = .ok trail)
    (hdir : (t.nodeAt trail).isDirectory = true) :
    t.find p = .ok (trail.location, t.nodeAt trail) := by
  rw [find, hobstacle]
  simp [hne, hwalk, hdir]

/-- A directory that is there is not made again. -/
theorem makeDirectory_of_walk {p : Path} {trail : Trail} (hne : p.bytes ≠ [])
    (hobstacle : p.obstacle? = none) (hwalk : t.walk p.parts = .ok trail)
    (hdir : (t.nodeAt trail).isDirectory = true) : t.makeDirectory p = (.ok (), t) := by
  have hexists : t.newDirectory p.parts = .error .exists := by
    unfold newDirectory
    split
    · rename_i n hlast
      obtain ⟨front, hparts⟩ := List.getLast?_eq_some_iff.mp hlast
      rw [hparts] at hwalk
      obtain ⟨mid, hfront, hstep⟩ := walk_concat_eq_ok.mp hwalk
      rw [hparts, List.dropLast_concat, walkToDirectory_of_step hfront hstep]
      simp only [(step_eq_ok hstep).2]
    · rw [hwalk]
  have hleads : t.leadsToDirectory p = true := by
    rw [leadsToDirectory, find_of_walk hne hobstacle hwalk hdir]
    exact hdir
  rw [makeDirectory, hobstacle]
  simp [hexists, hleads]

theorem makeDirectories_of_walk {p : Path} {trail : Trail} (hobstacle : p.obstacle? = none)
    (hwalk : t.walk p.parts = .ok trail) (hdir : (t.nodeAt trail).isDirectory = true) :
    t.makeDirectories p = (.ok (), t) := by
  rw [makeDirectories, makeDirectoriesFrom]
  split
  · rfl
  · rename_i hne
    rw [makeDirectory_of_walk hne hobstacle hwalk hdir]

theorem find_eq_ok {p : Path} {l : Location} {node : Node} (h : t.find p = .ok (l, node)) :
    p.obstacle? = none ∧ p.bytes ≠ [] ∧ (node.isDirectory = false → p.endsInSlash = false) ∧
      ∃ trail, t.walk p.parts = .ok trail ∧ l = trail.location ∧ node = t.nodeAt trail := by
  unfold find at h
  split at h
  · cases h
  · rename_i hobstacle
    split at h
    · cases h
    · rename_i hne
      split at h
      · cases h
      · rename_i trail hwalk
        dsimp only at h
        split at h
        · cases h
        · rename_i hslash
          obtain ⟨hloc, hnode⟩ := Prod.mk.inj (Except.ok.inj h)
          rw [hnode] at hslash
          exact ⟨hobstacle, hne, fun hfile => by simpa [hfile] using hslash, trail, hwalk,
            hloc.symm, hnode.symm⟩

/-- A path to a file is a name behind the parts of its parent. -/
theorem exists_name_of_find {p : Path} {l : Location} {bytes : Bytes}
    (h : t.find p = .ok (l, .file bytes)) :
    ∃ front n mid, p.parts = front ++ [.name n] ∧ t.walk front = .ok mid ∧
      t.step mid (.name n) = .ok ((n, .file bytes) :: mid) ∧ l = mid.location ++ [n] ∧
      (p.parent.bytes = [] ∨ p.parent.obstacle? = none ∧ t.walk p.parent.parts = .ok mid) := by
  obtain ⟨hobstacle, hne, hslash, trail, hwalk, rfl, hnode⟩ := find_eq_ok h
  have hfile : (t.nodeAt trail).isDirectory = false := by
    rw [← hnode]
    rfl
  have hlast : p.bytes.getLast? ≠ some 47 := by simpa [Path.endsInSlash] using hslash rfl
  -- whatever stands before the name, the walk reaches the file by a step from a directory
  have hsplit : ∀ (front : List Path.Part) (name : Bytes), p.parts = front ++ [Path.Part.of name] →
      ∃ n mid, Path.Part.of name = .name n ∧ t.walk front = .ok mid ∧
        t.step mid (.name n) = .ok ((n, .file bytes) :: mid) ∧
        trail.location = mid.location ++ [n] := by
    intro front name hparts
    rw [hparts] at hwalk
    obtain ⟨n, mid, hpart, hfront, hstep⟩ := walk_to_file hwalk hfile
    obtain ⟨node, -, rfl⟩ := enter_eq_ok (step_eq_ok hstep).2
    rw [hnode]
    exact ⟨n, mid, hpart, hfront, hstep, List.reverse_cons⟩
  obtain ⟨pathBytes⟩ := p
  obtain ⟨name, hname, hmem, heq | ⟨front, heq⟩⟩ := Path.exists_last_piece hne hlast
  all_goals
    dsimp only at heq
    subst heq
  · have hparts : Path.parts ⟨pathBytes⟩ = [] ++ [Path.Part.of pathBytes] :=
      Path.parts_of_piece hname hmem
    obtain ⟨n, mid, hpart, hfront, hstep, hloc⟩ := hsplit _ _ hparts
    have hdot : pathBytes ≠ [46] := by
      rintro rfl
      cases hpart
    rw [hpart] at hparts
    refine ⟨[], n, mid, hparts, hfront, hstep, hloc, .inl ?_⟩
    rw [Path.parent_of_piece hname hmem hdot]
  · have hparts : Path.parts ⟨front ++ 47 :: name⟩ = Path.parts ⟨front⟩ ++ [Path.Part.of name] := by
      rw [Path.parts_append_slash, Path.parts_of_piece hname hmem]
    obtain ⟨n, mid, hpart, hfront, hstep, hloc⟩ := hsplit _ _ hparts
    have hdot : name ≠ [46] := by
      rintro rfl
      cases hpart
    rw [hpart] at hparts
    refine ⟨_, n, mid, hparts, hfront, hstep, hloc, .inr ?_⟩
    rw [Path.parent_append hname hmem hdot]
    refine ⟨Path.obstacle?_trimmed (List.prefix_append _ _) hobstacle, ?_⟩
    obtain ⟨k, hk⟩ := Path.parts_eq_parts_trimmed ⟨front⟩
    rw [hk] at hfront
    obtain ⟨mid', hfront, hhere⟩ := walkFrom_append_eq_ok.mp hfront
    rw [walkFrom_replicate_here hhere]
    exact hfront

/-- A file that is there is found for appending, and nothing is made. -/
theorem createWithParents_of_find {p : Path} {l : Location} {bytes : Bytes}
    (h : t.find p = .ok (l, .file bytes)) : t.createWithParents p = (.ok l, t) := by
  obtain ⟨hobstacle, -, hslash, -⟩ := find_eq_ok h
  obtain ⟨front, n, mid, hparts, hfront, hstep, rfl, hparent⟩ := exists_name_of_find h
  obtain ⟨hdir, henter⟩ := step_eq_ok hstep
  have hmade : t.makeDirectories p.parent = (.ok (), t) := by
    rcases hparent with hempty | ⟨hobstacle, hwalk⟩
    · rw [makeDirectories, makeDirectoriesFrom, if_pos hempty]
    · exact makeDirectories_of_walk hobstacle hwalk hdir
  rw [createWithParents, hmade]
  dsimp only
  rw [createFile, hobstacle, hparts, hslash rfl]
  dsimp only
  rw [createAt, List.getLast?_concat, List.dropLast_concat]
  simp only [walkToDirectory_of_step hfront hstep, henter]
  rfl

/-- The node a path leads to stands where the path says. -/
theorem node?_of_find {p : Path} {l : Location} {node : Node} (h : t.find p = .ok (l, node)) :
    t.node? l = some node := by
  obtain ⟨-, -, -, trail, hwalk, rfl, rfl⟩ := find_eq_ok h
  have hleads : Trail.Leads t trail := Trail.Leads.root.walkFrom hwalk
  exact hleads.node?_location

theorem content_of_find {p : Path} {l : Location} {bytes : Bytes}
    (h : t.find p = .ok (l, .file bytes)) : t.content l = bytes := by
  rw [content, node?_of_find h]

/-- A file that is written over holds what was written. -/
theorem content_put_of_file {l : Location} {bytes : Bytes} (h : t.node? l = some (.file bytes))
    (fresh : Bytes) : (t.put l (.file fresh)).content l = fresh := by
  rcases List.eq_nil_or_concat l with rfl | ⟨front, n, rfl⟩
  · rfl
  · rw [List.concat_eq_append] at h ⊢
    rw [node?, Node.at?_append_name, Option.bind_eq_some_iff] at h
    obtain ⟨place, hplace, hchild⟩ := h
    have hput := Node.at?_put hplace (Node.isDirectory_of_child? hchild) n (.file fresh)
    rw [content, node?, put, hput]

theorem enter_eq_notFound {trail : Trail} {n : Bytes} (h : t.enter trail n = .error .notFound) :
    (t.nodeAt trail).child? n = none := by
  unfold enter at h
  split at h
  · cases h
  · split at h
    · rename_i hchild
      exact hchild
    · cases h

theorem walkToDirectory_eq_ok {parts : List Path.Part} {trail : Trail}
    (h : t.walkToDirectory parts = .ok trail) :
    Trail.Leads t trail ∧ (t.nodeAt trail).isDirectory = true := by
  unfold walkToDirectory at h
  split at h
  · cases h
  · rename_i mid hwalk
    split at h
    · rename_i hdir
      cases h
      exact ⟨Trail.Leads.root.walkFrom hwalk, hdir⟩
    · cases h

/-- Where a last name was not found there is nothing. -/
theorem node?_eq_none {parts : List Path.Part} {trail : Trail} {n : Bytes}
    (hto : t.walkToDirectory parts = .ok trail) (h : t.enter trail n = .error .notFound) :
    t.node? (trail.location ++ [n]) = none := by
  have hplace := (walkToDirectory_eq_ok hto).1.node?_location
  rw [node?] at hplace ⊢
  rw [Node.at?_append_name, hplace]
  exact enter_eq_notFound h

theorem content_makeDirectory (t : Tree) (p : Path) (l : Location) :
    (t.makeDirectory p).2.content l = t.content l := by
  unfold makeDirectory
  split
  · rfl
  · split
    · rename_i place hnew
      unfold newDirectory at hnew
      split at hnew
      · split at hnew
        · cases hnew
        · rename_i hto
          split at hnew
          · cases hnew
          · rename_i henter
            cases hnew
            exact Node.held_put_of_none Node.bare_directory_nil (node?_eq_none hto henter) l
          · cases hnew
      · split at hnew <;> cases hnew
    · rfl

theorem content_makeDirectoriesFrom (t : Tree) (fuel : Nat) (p : Path) (l : Location) :
    (t.makeDirectoriesFrom fuel p).2.content l = t.content l := by
  induction fuel generalizing t p with
  | zero => rfl
  | succ fuel ih =>
    have hmake := content_makeDirectory t p l
    rw [makeDirectoriesFrom]
    split
    · rfl
    · split
      · rename_i t' hmade
        rw [hmade] at hmake
        have hparents := ih t' p.parent
        split
        · rename_i e t'' habove
          rw [habove] at hparents
          exact hparents.trans hmake
        · rename_i t'' habove
          rw [habove] at hparents
          exact (content_makeDirectory t'' p l).trans (hparents.trans hmake)
      · exact hmake

/-- What `createAt` leaves: a file at the place it reports, empty if it is new. -/
theorem createAt_spec (t : Tree) (parts : List Path.Part) (slash : Bool) :
    (∀ l, (t.createAt parts slash).2.content l = t.content l) ∧
      ∀ l, (t.createAt parts slash).1 = .ok l →
        ∃ bytes, (t.createAt parts slash).2.node? l = some (.file bytes) := by
  unfold createAt
  split
  · exact ⟨fun _ => rfl, fun l h => by cases h⟩
  · rename_i n _
    split
    · exact ⟨fun _ => rfl, fun l h => by cases h⟩
    · rename_i mid hto
      split
      · exact ⟨fun _ => rfl, fun l h => by cases h⟩
      · obtain ⟨hleads, hdir⟩ := walkToDirectory_eq_ok hto
        dsimp only
        split
        · rename_i trail henter
          refine ⟨fun _ => rfl, fun l h => ?_⟩
          obtain ⟨node, hchild, rfl⟩ := enter_eq_ok henter
          dsimp only at h
          split at h
          · cases h
          · rename_i hfile
            cases h
            cases node with
            | file bytes =>
              refine ⟨bytes, ?_⟩
              rw [← show Trail.location ((n, .file bytes) :: mid) = mid.location ++ [n] from
                List.reverse_cons]
              exact (hleads.enter hchild).node?_location
            | directory entries => exact absurd rfl hfile
        · rename_i henter
          refine ⟨Node.held_put_of_none Node.bare_file_nil (node?_eq_none hto henter), ?_⟩
          rintro l h
          cases h
          exact ⟨[], Node.at?_put hleads.node?_location hdir n (.file [])⟩
        · exact ⟨fun _ => rfl, fun l h => by cases h⟩
  · split
    · exact ⟨fun _ => rfl, fun l h => by cases h⟩
    · exact ⟨fun _ => rfl, fun l h => by cases h⟩

/-- Opening a file for appending changes no file, and where it succeeds there is one. -/
theorem createWithParents_spec (t : Tree) (p : Path) :
    (∀ l, (t.createWithParents p).2.content l = t.content l) ∧
      ∀ l, (t.createWithParents p).1 = .ok l →
        ∃ bytes, (t.createWithParents p).2.node? l = some (.file bytes) := by
  have hparents := content_makeDirectoriesFrom t (p.parent.parts.length + 1) p.parent
  unfold createWithParents makeDirectories
  split
  · rename_i e t' h
    rw [h] at hparents
    exact ⟨hparents, fun l h => by cases h⟩
  · rename_i t' h
    rw [h] at hparents
    unfold createFile
    split
    · exact ⟨hparents, fun l h => by cases h⟩
    · obtain ⟨hcontent, hfile⟩ := createAt_spec t' p.parts p.endsInSlash
      exact ⟨fun l => (hcontent l).trans (hparents l), hfile⟩

end Tree

end Larder
