import U6fs.Verif.CrashRecovery

/-!
# Lives of a disk file

Processes run on a disk file one after the other, and the machine may stop while one of them runs;
the next process runs on another machine, or on the same one when it works again. The files and
directories go through the stages of the requests then. So a file that was added with success stays
seen with its content, whatever stops later.
-/
namespace U6fs

open Lib

/-- Processes run on the sectors of a disk file, each on a machine that works or stops, and with a
request that is admitted. -/
inductive Life (sectors : List Sector) : List Request → List Sector → Prop
  /-- No process has run. -/
  | start : Life sectors [] sectors
  /-- One process more has run. -/
  | next {requests : List Request} {f f' : Disk} {env : Environment} {fuel : Nat} {code : Int}
    {output : Output} (before : Life sectors requests f.sectors)
    (machine : f.host.Faultless ∨ ∃ k, f.host.StopsAt k)
    (finds : ∀ v, mountv6 (f.on f.host.repaired) = .ok v →
      (namespaceOf v).Admits v.s.lastScanned env.request)
    (run : env.u6fsDoOneCmd fuel f = some (code, output, f')) :
    Life sectors (requests ++ [env.request]) f'.sectors

/-- One process on a disk file that recovers, on a machine that works or stops. -/
theorem Recovers.next {s : Superblock} {f f' : Disk} {ns : Volume}
    (recovers : Recovers s f.sectors ns) (machine : f.host.Faultless ∨ ∃ k, f.host.StopsAt k)
    {env : Environment} {fuel : Nat} {code : Int} {output : Output}
    (admits : ns.Admits s.lastScanned env.request)
    (run : env.u6fsDoOneCmd fuel f = some (code, output, f')) :
    ∃ room, ∃ ns' ∈ ns.stages room env.request, Recovers s f'.sectors ns' := by
  rcases machine with works | ⟨k, stops⟩
  · obtain ⟨v, mounted, rfl, well, rfl⟩ := recovers f rfl works
    obtain ⟨room, free⟩ := exists_hasRoom v
    obtain ⟨rfl, -⟩ := mountv6_coherent mounted
    obtain ⟨w, mounted', super, well', serves⟩ := well.serves free admits run
    obtain ⟨rfl, -⟩ := mountv6_coherent mounted'
    rw [← super]
    exact ⟨room, _, serves.stage, well'.recovers⟩
  · obtain ⟨v, mounted, rfl, well, rfl⟩ :=
      recovers (f.on f.host.repaired) rfl f.host.repaired_faultless
    obtain ⟨room, free⟩ := exists_hasRoom v
    obtain ⟨disk, -⟩ := mountv6_coherent mounted
    have there : f = v.f.on f.host := by
      rw [disk]
      rfl
    rw [there] at run
    exact ⟨room, well.stage stops free admits run⟩

/-- Through any life a volume in good health recovers, as the requests and their stages make it. -/
theorem life_refines {u : UnixFilesystem} (healthy : Healthy u) {requests : List Request}
    {sectors : List Sector} (life : Life u.f.sectors requests sectors) :
    ∃ ns, Recovers u.s sectors ns ∧ (namespaceOf u).Life requests ns := by
  induction life with
  | start => exact ⟨_, healthy.recovers, .start _⟩
  | @next requests f f' env fuel code output before machine finds run ih =>
    obtain ⟨ns, recovers, lives⟩ := ih
    obtain ⟨v, mounted, super, -, holds⟩ :=
      recovers (f.on f.host.repaired) rfl f.host.repaired_faultless
    have admits := finds v mounted
    rw [holds, super] at admits
    obtain ⟨room, ns', stage, recovers'⟩ := recovers.next machine admits run
    exact ⟨ns', recovers', lives.next admits stage⟩

/-- `mkdir /c`. -/
def cutEnvironment : Environment :=
  workingEnvironment [literal "u6fs", literal "disk", literal "mkdir", literal "/c"] []

set_option maxRecDepth 10000 in
/-- On the empty volume `/a` is created, and `mkdir /c` is cut off after its first write; then the
machine works again, and `/b` is added. -/
theorem emptyVolume_crash : ∃ u code output f v code' output' f' w output'' f'',
    mountv6 emptyVolume = .ok u ∧
    (namespaceOf u).Admits u.s.lastScanned mkdirEnvironment.request ∧
    mkdirEnvironment.u6fsDoOneCmd 0 emptyVolume = some (code, output, f) ∧
    mountv6 (f.on (stoppingHost 4).repaired) = .ok v ∧
    (namespaceOf v).Admits v.s.lastScanned cutEnvironment.request ∧
    cutEnvironment.u6fsDoOneCmd 0 (f.on (stoppingHost 4)) = some (code', output', f') ∧
    mountv6 (f'.on (stoppingHost 4).repaired) = .ok w ∧
    (namespaceOf w).Admits w.s.lastScanned addEnvironment.request ∧
    addEnvironment.u6fsDoOneCmd 0 (f'.on (stoppingHost 4).repaired) =
      some (errNone, output'', f'') := by
  obtain ⟨u, mounted, admits, ⟨code, output, f⟩, run, v, mounted', admits', ⟨code', output', f'⟩,
      run', w, mounted'', admits'', ⟨code'', output'', f''⟩, run'', rfl⟩ := mountv6_check
    (f := emptyVolume)
    (P := fun u => (namespaceOf u).Admits u.s.lastScanned mkdirEnvironment.request ∧
      ∃ result ∈ mkdirEnvironment.u6fsDoOneCmd 0 emptyVolume,
        ∃ v ∈ (mountv6 (result.2.2.on (stoppingHost 4).repaired)).toOption,
          (namespaceOf v).Admits v.s.lastScanned cutEnvironment.request ∧
          ∃ result' ∈ cutEnvironment.u6fsDoOneCmd 0 (result.2.2.on (stoppingHost 4)),
            ∃ w ∈ (mountv6 (result'.2.2.on (stoppingHost 4).repaired)).toOption,
              (namespaceOf w).Admits w.s.lastScanned addEnvironment.request ∧
              ∃ result'' ∈ addEnvironment.u6fsDoOneCmd 0
                  (result'.2.2.on (stoppingHost 4).repaired), result''.1 = errNone)
    (by decide +kernel)
  exact ⟨u, code, output, f, v, code', output', f', w, output'', f'', mounted, admits, run,
    eq_ok_of_toOption mounted', admits', run', eq_ok_of_toOption mounted'', admits'', run''⟩

/-- The empty volume lives through `/a` and the `mkdir` that is cut off. -/
theorem emptyVolume_life : ∃ u f v output f', mountv6 emptyVolume = .ok u ∧
    Life u.f.sectors [.mkdir (literal "/a"), .mkdir (literal "/c")] f.sectors ∧
    f.host.Faultless ∧ mountv6 f = .ok v ∧
    (namespaceOf v).Admits v.s.lastScanned addEnvironment.request ∧
    addEnvironment.u6fsDoOneCmd 0 f = some (errNone, output, f') := by
  obtain ⟨u, code, output, f, v, code', output', f', w, output'', f'', mounted, admits, run,
    mounted', admits', run', mounted'', admits'', run''⟩ := emptyVolume_crash
  obtain ⟨disk, -⟩ := mountv6_coherent mounted
  have works : emptyVolume.host.Faultless :=
    ⟨fun _ _ => rfl, fun _ _ => rfl, fun _ _ => rfl, fun _ _ => rfl⟩
  have first : Life u.f.sectors [.mkdir (literal "/a")] f.sectors := by
    rw [disk]
    refine Life.next .start (.inl works) (fun v' again => ?_) run
    have same : mountv6 emptyVolume = .ok v' := again
    rw [mounted, Except.ok.injEq] at same
    rw [← same]
    exact admits
  have second : Life u.f.sectors [.mkdir (literal "/a"), .mkdir (literal "/c")] f'.sectors := by
    refine @Life.next u.f.sectors _ (f.on (stoppingHost 4)) f' cutEnvironment 0 code' output' first
      (.inr ⟨4, stoppingHost_stops 4⟩) (fun v' again => ?_) run'
    have same : mountv6 (f.on (stoppingHost 4).repaired) = .ok v' := again
    rw [mounted', Except.ok.injEq] at same
    rw [← same]
    exact admits'
  exact ⟨u, f'.on (stoppingHost 4).repaired, w, output'', f'', mounted, second,
    (stoppingHost 4).repaired_faultless, mounted'', admits'', run''⟩

/-- The empty volume recovers after the `mkdir` that is cut off. -/
theorem life_refines_empty : ∃ u sectors ns, mountv6 emptyVolume = .ok u ∧
    Recovers u.s sectors ns ∧
    (namespaceOf u).Life [.mkdir (literal "/a"), .mkdir (literal "/c")] ns := by
  obtain ⟨u, f, v, output, f', mounted, life, -⟩ := emptyVolume_life
  obtain ⟨ns, recovers, lives⟩ := life_refines (emptyVolume_healthy mounted) life
  exact ⟨u, f.sectors, ns, mounted, recovers, lives⟩

/-- A file that a path leads to stays there through any life. -/
theorem Volume.Life.shows {u w : UnixFilesystem} (healthy : Healthy u)
    (tree : Namespace.Tree (namespaceOf u) 1) {requests : List Request}
    (life : (namespaceOf u).Life requests (namespaceOf w)) (well : Healthy w)
    {path content : List UInt8} {inr : UInt16} (shows : ShowsFile u path inr content) :
    ShowsFile w path inr content := by
  obtain ⟨found, attr, is⟩ := healthy.find_of_showsFile shows
  obtain ⟨resolved, ends⟩ := Volume.find_eq_ok_iff.mp found
  obtain ⟨resolved', is'⟩ := life.keeps tree resolved is
  exact well.showsFile_of_find (Volume.find_eq_ok_iff.mpr ⟨resolved', ends⟩) is'

/-- A file that a process adds with success is shown under its path. -/
theorem Volume.Serves.shows {v w : UnixFilesystem} (tree : Namespace.Tree (namespaceOf v) 1)
    (well : Healthy w) {closes room : Bool} {entry buf : List UInt8} {last : Nat}
    (admits : (namespaceOf v).Admits last (.add entry buf))
    (serves : (namespaceOf v).Serves closes room (.add entry buf) errNone (namespaceOf w)) :
    ShowsFile w entry (namespaceOf v).nextNumber buf := by
  obtain ⟨named, parent, resolved, grows⟩ := serves.makes admits rfl
  apply well.showsFile_of_find _ grows.new
  rw [Volume.find_eq_ok_iff, Volume.components_split named]
  refine ⟨grows.resolve_new tree.distinct resolved, .inl ?_⟩
  by_contra ends
  apply named
  rw [splitPath, if_neg ends]

/-- When a process adds a file with success on a machine that works, its path shows the content that
was added, and the paths of other files what they showed at first, after all that precedes and
follows, with machines that stop at any time. -/
theorem files_persist {u : UnixFilesystem} (healthy : Healthy u)
    (tree : Namespace.Tree (namespaceOf u) 1) {requests requests' : List Request} {f f' g : Disk}
    (life : Life u.f.sectors requests f.sectors) (works : f.host.Faultless) {env : Environment}
    {fuel : Nat} {output : Output} {entry buf : List UInt8} (adds : env.request = .add entry buf)
    (admits : ∀ v, mountv6 f = .ok v → (namespaceOf v).Admits v.s.lastScanned env.request)
    (run : env.u6fsDoOneCmd fuel f = some (errNone, output, f'))
    (life' : Life f'.sectors requests' g.sectors) (works' : g.host.Faultless) :
    ∃ w, mountv6 g = .ok w ∧ (∃ inr, ShowsFile w entry inr buf) ∧
      ∀ path inr content, ShowsFile u path inr content → ShowsFile w path inr content := by
  obtain ⟨ns, recovers, lives⟩ := life_refines healthy life
  obtain ⟨v, mounted, super, well, rfl⟩ := recovers f rfl works
  have ready := admits v mounted
  have rooted := lives.tree tree
  obtain ⟨room, free⟩ := exists_hasRoom v
  obtain ⟨rfl, -⟩ := mountv6_coherent mounted
  obtain ⟨w, mounted', -, well', serves⟩ := well.serves free ready run
  obtain ⟨rfl, -⟩ := mountv6_coherent mounted'
  have rooted' := (Volume.stages_changes ready serves.stage).tree rooted
  obtain ⟨ns', recovers', lives'⟩ := life_refines well' life'
  obtain ⟨w', final, -, well'', rfl⟩ := recovers' g rfl works'
  refine ⟨w', final, ⟨(namespaceOf v).nextNumber, ?_⟩, ?_⟩
  · rw [adds] at ready serves
    exact lives'.shows well' rooted' well'' (serves.shows rooted well' ready)
  · intro path inr content shows
    have before := lives.shows healthy tree well shows
    have step : (namespaceOf v).Life [env.request] (namespaceOf w) :=
      Volume.Life.next (.start _) ready serves.stage
    exact lives'.shows well' rooted' well'' (step.shows well rooted well' before)

/-- After the `mkdir` that is cut off, `/b` is added and shows its byte. -/
theorem files_persist_empty : ∃ g w, mountv6 g = .ok w ∧
    ∃ inr, ShowsFile w (literal "/b") inr [66] := by
  obtain ⟨u, f, v, output, f', mounted, life, works, mounted', admits, run⟩ := emptyVolume_life
  have adds : addEnvironment.request = .add (literal "/b") [66] := by decide
  have ready : ∀ w, mountv6 f = .ok w →
      (namespaceOf w).Admits w.s.lastScanned addEnvironment.request := by
    intro w again
    rw [mounted', Except.ok.injEq] at again
    rw [← again]
    exact admits
  obtain ⟨w, final, shown, -⟩ := files_persist (g := f'.on (stoppingHost 4).repaired)
    (emptyVolume_healthy mounted) (emptyVolume_tree mounted) life works adds ready run .start
    (stoppingHost 4).repaired_faultless
  exact ⟨_, w, final, shown⟩

end U6fs
