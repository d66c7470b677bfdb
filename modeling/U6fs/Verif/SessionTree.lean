import U6fs.Verif.Session
import U6fs.Verif.Tree

/-!
# The tree of a session

On a volume in good health whose records form a tree, the command `tree` lists all paths, depth
first, and returns. The records stay a tree through any session, and a process that creates or adds
a file with success changes the listing by one line, that of the new path.
-/
namespace U6fs

open Lib

/-- A new node has one line more in the listing; the other lines are as before. -/
theorem Volume.Enters.treeLines {ns ns' : Volume} {entry : List UInt8} {n : UInt16}
    {node : Node UInt16 (List UInt8) (List UInt8) UInt16}
    (enters : ns.Enters ns' entry n node) (tree : Namespace.Tree ns 1) :
    ∃ before after, ns.treeLines = before ++ after ∧
      ns'.treeLines = before ++ Volume.line node.body (components pathToken entry) :: after := by
  obtain ⟨named, parent, resolved, grows⟩ := enters
  obtain ⟨attr, records, directory⟩ := grows.directory
  have leads := (Namespace.resolve_eq_ok_iff tree.distinct).mp resolved
  have inside : ns parent ≠ none := by
    rw [directory]
    exact Option.some_ne_none _
  -- no path is longer than there are numbers
  have short : (splitPath entry).1.length < 65536 := by
    have whole := (Namespace.resolve_eq_ok_iff (grows.tree tree).distinct).mp
      (grows.resolve_new tree.distinct resolved)
    have bound := (grows.tree tree).acyclic.shallow _ _ whole
    rw [card_inumbers, List.length_append, List.length_singleton] at bound
    omega
  obtain ⟨before, after, was, is⟩ := tree.preorder_graft (not_not.mpr grows.unused) inside leads
    .refl short
  rw [← grows.entries, ← Volume.components_split named] at is
  -- the lines of the old paths are as before
  have same : ∀ part : List (List (List UInt8) × UInt16),
      (∀ path ∈ part, path ∈ preorder ns.entries 65536 1) →
      part.filterMap ns'.pathLine = part.filterMap ns.pathLine := by
    intro part mem
    apply List.filterMap_congr
    rintro ⟨names, inr⟩ there
    obtain ⟨-, -, path⟩ := mem_preorder.mp (mem _ there)
    have old : inr ≠ n := by
      rintro rfl
      exact tree.leads_used path grows.unused
    by_cases here : inr = parent
    · rw [Volume.pathLine, Volume.pathLine, grows.apply directory, if_pos here, here, directory]
      rfl
    · rw [Volume.pathLine, Volume.pathLine, grows.kept here old]
  refine ⟨.dir [pathToken] :: before.filterMap ns.pathLine, after.filterMap ns.pathLine, ?_, ?_⟩
  · rw [Volume.treeLines, was, List.filterMap_append, List.cons_append]
  · have new : ns'.pathLine (components pathToken entry, n) =
        some (Volume.line node.body (components pathToken entry)) := by
      rw [Volume.pathLine, grows.new, Option.map_some]
    rw [Volume.treeLines, is, List.filterMap_append, List.filterMap_cons_some new,
      List.cons_append, same before, same after]
    · intro path mem
      rw [was]
      exact List.mem_append_right _ mem
    · intro path mem
      rw [was]
      exact List.mem_append_left _ mem

namespace Sound

variable {u : UnixFilesystem} (sound : Sound u)

include sound

/-- The records that the listing goes through are those of the namespace. -/
theorem treeEntries_eq : treeEntries u = (namespaceOf u).entries := by
  have works := sound.image.regions.works
  funext inr
  rcases direntv6Opendir_cases u inr with ⟨code, -, none, refused⟩ | ⟨inode, read, directory⟩
  · rw [none]
    rcases is : namespaceOf u inr with _ | node
    · exact (Namespace.entries_unused is).symm
    · obtain ⟨inode, allocated, rfl⟩ := namespaceOf_eq_some_iff.mp is
      by_cases directory : inode.isDirectory = true
      · have read := inodeRead_of_allocated works allocated Inode.zero
        have opened := (direntv6Opendir_of_read u read directory).2 (Block.fill sectorSize 0)
        rw [refused] at opened
        cases opened
      · rw [nodeOf, if_neg directory] at is
        exact (Namespace.entries_file is).symm
  · have allocated : u.f.Allocated u.s inr.toNat inode := by
      have found := @inodeRead_allocated u inr Inode.zero
      rw [read] at found
      exact found rfl
    rw [(direntv6Opendir_of_read u read directory).1, entries_of_allocated allocated directory]

/-- Every directory can be listed. -/
theorem listable {inr : UInt16} {inode : Inode}
    (read : inodeRead u inr Inode.zero = (errNone, inode)) (directory : inode.isDirectory = true) :
    ListableDirectory u inode := by
  have works := sound.image.regions.works
  have allocated : u.f.Allocated u.s inr.toNat inode := by
    have found := @inodeRead_allocated u inr Inode.zero
    rw [read] at found
    exact found rfl
  obtain ⟨distinct, named⟩ := sound.distinct allocated directory
  constructor
  case whole => exact sound.image.whole _ inode allocated directory
  case read => exact sound.whole allocated
  case distinct => exact distinct
  case names =>
    intro entry mem
    constructor
    · intro none
      apply named
      rw [← none]
      exact List.mem_map_of_mem mem
    · exact sound.plain _ inode allocated directory entry mem
  case targets =>
    intro entry mem
    obtain ⟨child, used⟩ := sound.live allocated directory mem
    rw [inodeRead_of_allocated works used]

/-- The line that is printed for a path is that of the namespace. -/
theorem pathLine_eq {names : List (List UInt8)} {inr : UInt16} (used : namespaceOf u inr ≠ none) :
    (namespaceOf u).pathLine (names, inr) = some (treeLine u [] (names, inr)) := by
  have works := sound.image.regions.works
  obtain ⟨node, is⟩ := Option.ne_none_iff_exists'.mp used
  obtain ⟨inode, allocated, rfl⟩ := namespaceOf_eq_some_iff.mp is
  rw [Volume.pathLine, is, Option.map_some, treeLine, inodeRead_of_allocated works allocated]
  by_cases directory : inode.isDirectory = true
  · rw [nodeOf, if_pos directory, if_pos directory]
    rfl
  · rw [nodeOf, if_neg directory, if_neg directory]
    rfl

/-- Where the records form a tree, the listing ends with all paths of the namespace. -/
theorem direntv6PrintTree_eq (tree : Namespace.Tree (namespaceOf u) 1) {fuel : Nat}
    (enough : 65536 < fuel) :
    direntv6PrintTree u fuel 1 [] = some (errNone, (namespaceOf u).treeLines) := by
  have entries := sound.treeEntries_eq
  obtain ⟨inode, allocated, directory⟩ := sound.image.root
  have read : inodeRead u 1 Inode.zero = (errNone, inode) :=
    @inodeRead_of_allocated u sound.image.regions.works 1 inode allocated Inode.zero
  have acyclic : Acyclic (treeEntries u) 1 := by
    rw [entries]
    exact tree.acyclic
  have shallow := acyclic.shallow
  rw [card_inumbers] at shallow
  have listed := direntv6PrintTree_lines (fun inr inode _ => sound.listable) [] .refl read directory
    (by
      rintro b cycle rfl
      exact acyclic 1 .refl cycle) shallow
  have lines : (preorder (treeEntries u) 65536 1).map (treeLine u []) =
      (preorder (namespaceOf u).entries 65536 1).filterMap (namespaceOf u).pathLine := by
    rw [entries, ← List.filterMap_eq_map]
    apply List.filterMap_congr
    rintro ⟨names, inr⟩ mem
    obtain ⟨-, -, path⟩ := mem_preorder.mp mem
    exact (sound.pathLine_eq (tree.leads_used path)).symm
  rw [lines] at listed
  exact direntv6PrintTree_mono u enough listed

end Sound

/-- The command `tree` prints some lines and returns. -/
def PrintsTree (f : Disk) (lines : List TreeLine) : Prop :=
  ∀ (env : Environment) (fuel : Nat), env.opens = true → isCommand env.argv "tree" 3 = true →
    65536 < fuel → env.u6fsDoOneCmd fuel f =
      some (if env.closes then errNone else errIo, .tree lines, f)

/-- On a volume in good health whose records form a tree, the command prints all paths. -/
theorem Healthy.printsTree {u : UnixFilesystem} (healthy : Healthy u)
    (tree : Namespace.Tree (namespaceOf u) 1) : PrintsTree u.f (namespaceOf u).treeLines := by
  intro env fuel opens is enough
  have other {name : String} {argc : Nat} (ne : literal "tree" ≠ literal name) :
      isCommand env.argv name argc = false := isCommand_other is ne
  have run : runCommand fuel env u = some (errNone, .tree (namespaceOf u).treeLines, u) := by
    rw [runCommand]
    simp only [other (by decide : literal "tree" ≠ literal "inode"),
      other (by decide : literal "tree" ≠ literal "sb"),
      other (by decide : literal "tree" ≠ literal "shafiles"),
      other (by decide : literal "tree" ≠ literal "cat1"), is, Bool.false_eq_true, if_false,
      if_true]
    have root : rootInumber.toUInt16 = 1 := rfl
    rw [root, healthy.direntv6PrintTree_eq tree enough]
    rfl
  rw [u6fsDoOneCmd_eq opens is healthy.mounted, run, Option.map_some]
  rfl

/-- After any session on a volume in good health whose records form a tree, `tree` returns; and when
one more process creates or adds a file with success, `tree` prints one line more than before, that
of the path, and the other lines as before and in the same order. -/
theorem tree_grows {u : UnixFilesystem} (healthy : Healthy u)
    (tree : Namespace.Tree (namespaceOf u) 1) {log : List ServedRequest} {f f' : Disk}
    (session : Session u.f log f) {env : Environment} {fuel : Nat} {output : Output}
    (admits : ∀ v, mountv6 f = .ok v → (namespaceOf v).Admits v.s.lastScanned env.request)
    {entry : List UInt8} {node : Node UInt16 (List UInt8) (List UInt8) UInt16}
    (makes : env.request.makes = some (entry, node))
    (run : env.u6fsDoOneCmd fuel f = some (errNone, output, f')) :
    ∃ before after, PrintsTree f (before ++ after) ∧
      PrintsTree f' (before ++ Volume.line node.body (components pathToken entry) :: after) := by
  obtain ⟨v, mounted, well, runs⟩ := session.reaches healthy
  obtain ⟨rfl, -⟩ := mountv6_coherent mounted
  have rooted := runs.tree tree
  obtain ⟨room, free⟩ := exists_hasRoom v
  obtain ⟨w, mounted', -, well', serves⟩ := well.serves free (admits v mounted) run
  obtain ⟨rfl, -⟩ := mountv6_coherent mounted'
  obtain ⟨before, after, was, is⟩ := (serves.makes (admits v mounted) makes).treeLines rooted
  refine ⟨before, after, ?_, ?_⟩
  · rw [← was]
    exact well.printsTree rooted
  · rw [← is]
    have changes := Volume.stages_changes (admits v mounted) serves.stage
    exact well'.printsTree (changes.tree rooted)

/-- The records of the empty volume form a tree. -/
theorem emptyVolume_tree {u : UnixFilesystem} (mounted : mountv6 emptyVolume = .ok u) :
    Namespace.Tree (namespaceOf u) 1 := by
  have healthy := emptyVolume_healthy mounted
  obtain ⟨f, s, -⟩ := mountv6_geometry emptyVolume_wellFormed.regions mounted
  have none : ∀ inr, (namespaceOf u).entries inr = [] := by
    intro inr
    rcases is : namespaceOf u inr with _ | node
    · exact Namespace.entries_unused is
    · obtain ⟨inode, allocated, rfl⟩ := namespaceOf_eq_some_iff.mp is
      by_cases directory : inode.isDirectory = true
      · rw [entries_of_allocated allocated directory]
        apply List.length_eq_zero_iff.mp
        have length := healthy.entries_length allocated directory
        rw [f, s] at allocated
        rw [(emptyVolume_allocated allocated).2, emptyDirectory_size] at length
        rw [(emptyVolume_allocated allocated).2]
        omega
      · rw [nodeOf, if_neg directory] at is
        exact Namespace.entries_file is
  obtain ⟨inode, allocated, -⟩ := healthy.image.root
  constructor
  case start =>
    have used := @namespaceOf_of_allocated u 1 inode allocated
    rw [used]
    exact Option.some_ne_none _
  case records =>
    intro a b name record
    rw [none] at record
    cases record
  case single =>
    intro a a' b name name' record
    rw [none] at record
    cases record
  case rootless =>
    intro a name
    rw [none]
    exact List.not_mem_nil
  case distinct =>
    intro a
    rw [none]
    exact List.nodup_nil

/-- On the empty volume with a directory, `/b` is one line more. -/
theorem tree_grows_empty : ∃ f f' before after, PrintsTree f (before ++ after) ∧
    PrintsTree f' (before ++ .fil (literal "/b") :: after) := by
  obtain ⟨u, output, f, v, output', f', mounted, admits, run, mounted', admits', run'⟩ :=
    emptyVolume_commands
  obtain ⟨disk, -⟩ := mountv6_coherent mounted
  obtain ⟨room, session⟩ := Session.start.serve mounted admits run
  rw [← disk] at session
  have makes : addEnvironment.request.makes =
      some (literal "/b", ⟨allRights ||| 0x8000, .file [66]⟩) := by decide
  have line : Volume.line (.file [66]) (components pathToken (literal "/b")) =
      .fil (literal "/b") := by decide
  have ready : ∀ w, mountv6 f = .ok w →
      (namespaceOf w).Admits w.s.lastScanned addEnvironment.request := by
    intro w again
    rw [mounted', Except.ok.injEq] at again
    rw [← again]
    exact admits'
  obtain ⟨before, after, was, is⟩ := tree_grows (emptyVolume_healthy mounted)
    (emptyVolume_tree mounted) session ready makes run'
  rw [line] at is
  exact ⟨f, f', before, after, was, is⟩

end U6fs
