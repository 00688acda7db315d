import UBootV210.DriverModel.DeviceFlags

/-! # Binding and unbinding

`device_bind` and `device_unbind` keep the links of the devices and change no flag. -/

namespace UBootV210.DriverModel

def World.Closed (world : World) : Prop := world.ClosedUnder world.active

variable {list : List Nat} {other uclass : Nat} {otherDevice : Device} {next : World}
  {answers : Answers}

section

variable {world : World} {id : Nat} {device : Device}

theorem World.active_eq (found : world.devices id = some device) :
    world.active id = device.activated := by
  rw [World.active, found]
  rfl

theorem neighbours_subset (member : other ∈ neighbours list id) : other ∈ list := by
  rw [neighbours, List.mem_append, Option.mem_toList, Option.mem_toList] at member
  rcases member with before | after
  · exact List.takeWhile_subset _ (List.mem_of_getLast? before)
  · exact List.dropWhile_subset _ (List.drop_subset _ _ (List.mem_of_head? after))

theorem World.touch_eq (live : ∀ other ∈ ids, world.devices other ≠ none) :
    world.touch ids = .ok () := by
  rw [World.touch, if_pos]
  rw [List.all_eq_true]
  intro other member
  exact Option.isSome_iff_ne_none.mpr (live other member)

theorem World.devHead_eq (found : world.uclasses uclass = some list) :
    world.devHead uclass = .ok list := by
  rw [World.devHead, found]

/-! ## A device that is taken out -/

def World.unlink (world : World) (id : Nat) : World where
  devices other :=
    if other = id then
      none
    else
      (world.devices other).map fun device => { device with children := device.children.erase id }
  uclasses uclass := (world.uclasses uclass).map (·.erase id)
  next := world.next

theorem World.unlink_devices (found : (world.unlink id).devices other = some device) :
    other ≠ id ∧ ∃ before, world.devices other = some before ∧
      device = { before with children := before.children.erase id } := by
  rw [World.unlink] at found
  dsimp only at found
  split at found
  · cases found
  case isFalse different =>
    obtain ⟨before, there, same⟩ := Option.map_eq_some_iff.mp found
    exact ⟨different, before, there, same.symm⟩

theorem World.unlink_eq_some (different : other ≠ id) (found : world.devices other = some device) :
    (world.unlink id).devices other =
      some { device with children := device.children.erase id } := by
  simp [World.unlink, different, found]

theorem World.Linked.unlink (linked : world.Linked) (found : world.devices id = some device)
    (childless : device.children = []) : (world.unlink id).Linked where
  allocated := by
    intro other otherDevice otherFound
    obtain ⟨_, before, there, _⟩ := World.unlink_devices otherFound
    exact linked.allocated there
  older := by
    intro other otherDevice parent otherFound above
    obtain ⟨_, before, there, rfl⟩ := World.unlink_devices otherFound
    exact linked.older there above
  inParent := by
    intro other otherDevice parent otherFound above
    obtain ⟨different, before, there, rfl⟩ := World.unlink_devices otherFound
    obtain ⟨parentDevice, parentFound, member⟩ := linked.inParent there above
    have kept : parent ≠ id := by
      rintro rfl
      rw [found] at parentFound
      cases parentFound
      rw [childless] at member
      cases member
    exact ⟨_, World.unlink_eq_some kept parentFound, (List.mem_erase_of_ne different).mpr member⟩
  child := by
    intro other otherDevice child otherFound member
    obtain ⟨different, before, there, rfl⟩ := World.unlink_devices otherFound
    have kept : child ≠ id := by
      rintro rfl
      exact (linked.childrenNodup there).not_mem_erase member
    obtain ⟨childDevice, childFound, above⟩ := linked.child there (List.mem_of_mem_erase member)
    exact ⟨_, World.unlink_eq_some kept childFound, above⟩
  childrenNodup := by
    intro other otherDevice otherFound
    obtain ⟨_, before, there, rfl⟩ := World.unlink_devices otherFound
    exact (linked.childrenNodup there).erase id
  inUclass := by
    intro other otherDevice otherFound
    obtain ⟨different, before, there, rfl⟩ := World.unlink_devices otherFound
    obtain ⟨list, listed, member⟩ := linked.inUclass there
    exact ⟨list.erase id, by rw [World.unlink]; simp [listed],
      (List.mem_erase_of_ne different).mpr member⟩
  member := by
    intro uclass list other listed member
    obtain ⟨before, there, rfl⟩ := Option.map_eq_some_iff.mp listed
    have kept : other ≠ id := by
      rintro rfl
      exact (linked.uclassNodup there).not_mem_erase member
    obtain ⟨otherDevice, otherFound, same⟩ := linked.member there (List.mem_of_mem_erase member)
    exact ⟨_, World.unlink_eq_some kept otherFound, same⟩
  uclassNodup := by
    intro uclass list listed
    obtain ⟨before, there, rfl⟩ := Option.map_eq_some_iff.mp listed
    exact (linked.uclassNodup there).erase id

-- Only the parent of a device has it among its children.
theorem World.Linked.map_erase (linked : world.Linked) (found : world.devices id = some device)
    (notParent : device.parent ≠ some other) : ((world.devices other).map fun otherDevice =>
      { otherDevice with children := otherDevice.children.erase id }) = world.devices other := by
  cases otherFound : world.devices other with
  | none => rfl
  | some otherDevice =>
    have absent : id ∉ otherDevice.children := by
      intro member
      obtain ⟨below, belowFound, parent⟩ := linked.child otherFound member
      rw [found] at belowFound
      cases belowFound
      exact notParent parent
    rw [Option.map_some, List.erase_of_not_mem absent]

theorem World.Linked.erase_uclasses (linked : world.Linked) (found : world.devices id = some device)
    (listed : world.uclasses device.uclass = some list) :
    Function.update world.uclasses device.uclass (some (list.erase id)) =
      (world.unlink id).uclasses := by
  funext uclass
  dsimp only [World.unlink]
  by_cases same : uclass = device.uclass
  · subst same
    rw [Function.update_self, listed]
    rfl
  · rw [Function.update_of_ne same]
    cases otherListed : world.uclasses uclass with
    | none => rfl
    | some others =>
      have kept : others.erase id = others := by
        apply List.erase_of_not_mem
        intro member
        obtain ⟨there, thereFound, theirs⟩ := linked.member otherListed member
        rw [found] at thereFound
        cases thereFound
        exact same theirs.symm
      rw [Option.map_some, kept]

theorem World.Linked.unlink_eq (linked : world.Linked) (found : world.devices id = some device)
    (listed : world.uclasses device.uclass = some list) :
    ∃ before, delSibling id device.parent (world.setDevHead device.uclass (list.erase id)) =
      .ok before ∧ before.freeDevice id = world.unlink id := by
  have uclasses := linked.erase_uclasses found listed
  cases above : device.parent with
  | none =>
    refine ⟨_, rfl, World.mk.injEq .. ▸ ⟨?_, uclasses, rfl⟩⟩
    funext other
    by_cases same : other = id
    · simp [World.setDevHead, same]
    · have kept := @World.Linked.map_erase other world id device linked found (by simp [above])
      simp [World.setDevHead, same, kept]
  | some parent =>
    obtain ⟨parentDevice, parentFound, _⟩ := linked.inParent found above
    have read : (world.setDevHead device.uclass (list.erase id)).device parent =
        .ok parentDevice := World.device_eq parentFound
    rw [delSibling, read, Exec.ok_bind]
    refine ⟨_, rfl, World.mk.injEq .. ▸ ⟨?_, uclasses, rfl⟩⟩
    funext other
    by_cases same : other = id
    · simp [same]
    by_cases up : other = parent
    · simp [World.setDevice, up ▸ same, up, parentFound]
    · have kept := @World.Linked.map_erase other world id device linked found
        (by simpa [above] using Ne.symm up)
      simp [World.setDevice, World.setDevHead, same, up, kept]

/-! ## `device_unbind` -/

structure Unbinds (world next : World) (id : Nat) : Prop where
  linked : next.Linked
  allocates : next.next = world.next
  kept : ∀ {other device}, next.devices other = some device → ∃ before,
    world.devices other = some before ∧ device.parent = before.parent ∧
      device.activated = before.activated
  gone : ∀ {other device}, world.devices other = some device → next.devices other = none →
    world.Below id other

theorem Unbinds.refl (linked : world.Linked) : Unbinds world world id where
  linked := linked
  allocates := rfl
  kept := fun found => ⟨_, found, rfl, rfl⟩
  gone := by
    intro other device found gone
    rw [found] at gone
    cases gone

theorem Unbinds.below {middle : World} {upper lower other : Nat}
    (unbinds : Unbinds world middle upper) (below : middle.Below lower other) :
    world.Below lower other := by
  induction below with
  | self => exact .self
  | child found parent _ induction =>
    obtain ⟨before, there, same, _⟩ := unbinds.kept found
    exact .child there (same.symm.trans parent) induction

theorem Unbinds.trans (before : Unbinds world middle first) (after : Unbinds middle last second)
    (firstBelow : world.Below id first) (secondBelow : world.Below id second) :
    Unbinds world last id where
  linked := after.linked
  allocates := after.allocates.trans before.allocates
  kept := by
    intro other device found
    obtain ⟨there, thereFound, parent, activated⟩ := after.kept found
    obtain ⟨origin, originFound, originParent, originActivated⟩ := before.kept thereFound
    exact ⟨origin, originFound, parent.trans originParent, activated.trans originActivated⟩
  gone := by
    intro other device found gone
    cases there : middle.devices other with
    | none => exact firstBelow.trans (before.gone found there)
    | some otherDevice => exact secondBelow.trans (before.below (after.gone there gone))

theorem Unbinds.stays (unbinds : Unbinds world next id) (found : world.devices other = some device)
    (notBelow : ¬ world.Below id other) :
    ∃ after, next.devices other = some after ∧ after.parent = device.parent := by
  cases there : next.devices other with
  | none => exact absurd (unbinds.gone found there) notBelow
  | some after =>
    obtain ⟨before, beforeFound, parent, _⟩ := unbinds.kept there
    rw [found] at beforeFound
    cases beforeFound
    exact ⟨after, rfl, parent⟩

theorem Unbinds.stays_gone (unbinds : Unbinds world next id) (gone : world.devices other = none) :
    next.devices other = none := by
  by_contra there
  obtain ⟨device, found⟩ := Option.ne_none_iff_exists'.mp there
  obtain ⟨before, beforeFound, _⟩ := unbinds.kept found
  rw [gone] at beforeFound
  cases beforeFound

theorem Unbinds.closed (unbinds : Unbinds world next id) (closed : world.Closed) :
    next.Closed := by
  intro other otherDevice parent otherFound above set
  obtain ⟨before, there, sameParent, sameFlag⟩ := unbinds.kept otherFound
  obtain ⟨parentDevice, parentFound, _⟩ := unbinds.linked.inParent otherFound above
  obtain ⟨parentBefore, parentThere, _, parentFlag⟩ := unbinds.kept parentFound
  rw [World.active_eq otherFound, sameFlag, ← World.active_eq there] at set
  rw [World.active_eq parentFound, parentFlag, ← World.active_eq parentThere]
  exact closed there (sameParent.symm.trans above) set

theorem World.Linked.unbinds_unlink (linked : world.Linked)
    (found : world.devices id = some device) (childless : device.children = []) :
    Unbinds world (world.unlink id) id where
  linked := linked.unlink found childless
  allocates := rfl
  kept := by
    intro other otherDevice otherFound
    obtain ⟨_, before, there, rfl⟩ := World.unlink_devices otherFound
    exact ⟨before, there, rfl, rfl⟩
  gone := by
    intro other otherDevice otherFound gone
    by_cases same : other = id
    · rw [same]
      exact .self
    · rw [World.unlink_eq_some same otherFound] at gone
      cases gone

-- The children that are still to come are live: they are not under the one that is unbound.
theorem deviceChldUnbind_spec {unbind : Nat → World → Exec (Int × World)} {children : List Nat}
    {saved : Int} (linked : world.Linked) (found : world.devices id = some device)
    (nodup : children.Nodup)
    (live : ∀ child ∈ children, ∃ device, world.devices child = some device ∧
      device.parent = some id)
    (spec : ∀ child ∈ children, ∀ (current : World) (device : Device), current.Linked →
      current.next = world.next → current.devices child = some device → ∃ ret next,
        unbind child current = .ok (ret, next) ∧ Unbinds current next child ∧
          (ret = 0 → next.devices child = none)) :
    ∃ ret next, deviceChldUnbind unbind children saved world = .ok (ret, next) ∧
      Unbinds world next id ∧
      (∃ after, next.devices id = some after ∧ after.parent = device.parent) ∧
      (ret = 0 → saved = 0 ∧ ∀ child ∈ children, next.devices child = none) := by
  induction children generalizing world saved device with
  | nil =>
    refine ⟨saved, world, rfl, .refl linked, ⟨device, found, rfl⟩, fun zero => ⟨zero, ?_⟩⟩
    intro child member
    cases member
  | cons child children induction =>
    obtain ⟨childDevice, childFound, childParent⟩ := live child List.mem_cons_self
    have childBelow : world.Below id child := .child childFound childParent .self
    obtain ⟨ret, middle, unbound, unbinds, gone⟩ :=
      spec child List.mem_cons_self world childDevice linked rfl childFound
    rw [deviceChldUnbind, unbound, Exec.ok_bind]
    dsimp only
    have above : ¬ world.Below child id := by
      intro below
      have up := below.le linked
      have older := linked.older childFound childParent
      omega
    obtain ⟨after, afterFound, sameParent⟩ := unbinds.stays found above
    have later : ∀ other ∈ children, ∃ device, middle.devices other = some device ∧
        device.parent = some id := by
      intro other member
      obtain ⟨otherDevice, otherFound, otherParent⟩ := live other (List.mem_cons_of_mem _ member)
      rw [← otherParent]
      apply unbinds.stays otherFound
      intro below
      cases below with
      | self => exact (List.nodup_cons.mp nodup).1 member
      | child thereFound thereParent below =>
        rw [otherFound] at thereFound
        cases thereFound
        rw [otherParent] at thereParent
        cases thereParent
        exact above below
    obtain ⟨ret', last, rest, unbinds', ⟨final, finalFound, finalParent⟩, gone'⟩ :=
      @induction middle after (if ret ≠ 0 ∧ saved = 0 then ret else saved) unbinds.linked afterFound
        (List.nodup_cons.mp nodup).2 later (by
          intro other member current device currentLinked allocates currentFound
          exact spec other (List.mem_cons_of_mem _ member) current device currentLinked
            (allocates.trans unbinds.allocates) currentFound)
    refine ⟨ret', last, rest, unbinds.trans unbinds' childBelow .self,
      ⟨final, finalFound, finalParent.trans sameParent⟩, ?_⟩
    intro zero
    obtain ⟨merged, others⟩ := gone' zero
    have both : ret = 0 ∧ saved = 0 := by
      split at merged
      case isTrue failed => exact absurd merged failed.1
      case isFalse notFirst =>
        refine ⟨?_, merged⟩
        by_contra failed
        exact notFirst ⟨failed, merged⟩
    refine ⟨both.2, ?_⟩
    intro other member
    cases List.mem_cons.mp member with
    | inr later => exact others other later
    | inl first =>
      subst first
      exact unbinds'.stays_gone (gone both.1)

-- The neighbours of a device in the list of its uclass are there.
theorem World.Linked.live_member (linked : world.Linked)
    (listed : world.uclasses uclass = some list)
    (member : other ∈ list) : world.devices other ≠ none := by
  obtain ⟨otherDevice, otherFound, _⟩ := linked.member listed member
  simp [otherFound]

theorem uclassUnbindDevice_eq (linked : world.Linked)
    (found : world.devices id = some device) (listed : world.uclasses device.uclass = some list)
    (agreed : answers (.preUnbind takesBack) id = 0) :
    uclassUnbindDevice answers takesBack id world =
      .ok (0, world.setDevHead device.uclass (list.erase id)) := by
  have touched : world.touch (neighbours list id) = .ok () := by
    apply World.touch_eq
    intro other member
    exact linked.live_member listed (neighbours_subset member)
  rw [uclassUnbindDevice, World.device_eq found, Exec.ok_bind, World.devHead_eq listed,
    Exec.ok_bind, if_neg (not_not.mpr agreed), touched, Exec.ok_bind]
  rfl

theorem deviceUnbind_spec {answers : Answers} {fuel : Nat} (linked : world.Linked)
    (found : world.devices id = some device) (enough : world.next < fuel + id) :
    ∃ ret next, deviceUnbind answers fuel id world = .ok (ret, next) ∧ Unbinds world next id ∧
      (ret = 0 → next.devices id = none) := by
  induction fuel generalizing world id device with
  | zero =>
    have young := linked.allocated found
    omega
  | succ fuel induction =>
    rw [deviceUnbind, World.device_eq found, Exec.ok_bind]
    split
    · exact ⟨_, world, rfl, .refl linked, fun zero => absurd zero (by decide)⟩
    split
    case isTrue failed => exact ⟨_, world, rfl, .refl linked, fun zero => absurd zero failed⟩
    obtain ⟨ret, middle, unbound, unbinds, ⟨device', found', sameParent⟩, gone⟩ :=
      @deviceChldUnbind_spec world id device (deviceUnbind answers fuel) device.children 0 linked
        found (linked.childrenNodup found) (fun child member => linked.child found member)
        (by
          intro child member current childDevice currentLinked allocates childFound
          obtain ⟨_, thereFound, parent⟩ := linked.child found member
          have younger := linked.older thereFound parent
          exact induction currentLinked childFound (by omega))
    rw [unbound, Exec.ok_bind]
    dsimp only
    split
    case isTrue failed => exact ⟨ret, middle, rfl, unbinds, fun zero => absurd zero failed⟩
    case isFalse success =>
      have childless : device'.children = [] := by
        apply List.eq_nil_iff_forall_not_mem.mpr
        intro child member
        obtain ⟨below, belowFound, parent⟩ := unbinds.linked.child found' member
        obtain ⟨before, there, same, _⟩ := unbinds.kept belowFound
        obtain ⟨above, aboveFound, listed⟩ := linked.inParent there (same.symm.trans parent)
        rw [found] at aboveFound
        cases aboveFound
        rw [(gone (not_not.mp success)).2 child listed] at belowFound
        cases belowFound
      obtain ⟨list, listed, _⟩ := unbinds.linked.inUclass found'
      by_cases agreed : answers (.preUnbind false) id = 0
      · obtain ⟨before, taken, freed⟩ := unbinds.linked.unlink_eq found' listed
        rw [uclassUnbindDevice_eq unbinds.linked found' listed agreed, Exec.ok_bind]
        dsimp only
        rw [if_neg (by simp), ← sameParent, taken, Exec.ok_bind]
        refine ⟨0, middle.unlink id, by rw [← freed]; rfl, ?_, ?_⟩
        · exact unbinds.trans (unbinds.linked.unbinds_unlink found' childless) .self .self
        · intro _
          simp [World.unlink]
      · rw [uclassUnbindDevice, World.device_eq found', Exec.ok_bind, World.devHead_eq listed,
          Exec.ok_bind, if_pos agreed]
        refine ⟨_, middle, ?_, unbinds, fun zero => absurd zero agreed⟩
        exact if_pos agreed

/-! ## `device_bind` -/

def World.joining (world : World) (joins : Bool) : List Nat :=
  if joins then [world.next] else []

def World.link (world : World) (device : Device) : World where
  devices other :=
    if other = world.next then
      some device
    else
      (world.devices other).map fun otherDevice =>
        { otherDevice with
          children := otherDevice.children ++ world.joining (device.parent = some other) }
  uclasses uclass :=
    (world.uclasses uclass).map (· ++ world.joining (uclass = device.uclass))
  next := world.next + 1

theorem World.link_new : (world.link device).devices world.next = some device := by
  simp [World.link]

theorem World.link_devices (found : (world.link device).devices other = some otherDevice) :
    (other = world.next ∧ otherDevice = device) ∨ ∃ before, world.devices other = some before ∧
      otherDevice = { before with
        children := before.children ++ world.joining (device.parent = some other) } := by
  rw [World.link] at found
  dsimp only at found
  split at found
  case isTrue same => exact .inl ⟨same, (Option.some.inj found).symm⟩
  case isFalse =>
    obtain ⟨before, there, equal⟩ := Option.map_eq_some_iff.mp found
    exact .inr ⟨before, there, equal.symm⟩

theorem World.Linked.link_kept (linked : world.Linked) (found : world.devices other = some before) :
    (world.link device).devices other = some { before with
      children := before.children ++ world.joining (device.parent = some other) } := by
  have different : other ≠ world.next := Nat.ne_of_lt (linked.allocated found)
  rw [World.link]
  dsimp only
  rw [if_neg different, found]
  rfl

-- A list of devices gets at most the new one.
theorem World.nodup_joining (nodup : list.Nodup)
    (young : ∀ other ∈ list, other < world.next) : (list ++ world.joining joins).Nodup := by
  rw [World.joining]
  split
  · refine List.nodup_append.mpr ⟨nodup, List.nodup_singleton _, ?_⟩
    intro other member new isNew
    rw [List.mem_singleton.mp isNew]
    exact (young other member).ne
  · rw [List.append_nil]
    exact nodup

theorem World.mem_joining (member : other ∈ list ++ world.joining joins) :
    other ∈ list ∨ (joins = true ∧ other = world.next) := by
  rcases List.mem_append.mp member with old | new
  · exact .inl old
  · rw [World.joining] at new
    split at new
    case isTrue joins => exact .inr ⟨joins, List.mem_singleton.mp new⟩
    case isFalse => cases new

theorem World.Linked.link (linked : world.Linked) (childless : device.children = [])
    (parentLive : ∀ parent, device.parent = some parent → world.devices parent ≠ none)
    (listed : world.uclasses device.uclass = some list) : (world.link device).Linked where
  allocated := by
    intro other otherDevice found
    rcases World.link_devices found with ⟨rfl, rfl⟩ | ⟨before, there, rfl⟩
    · exact Nat.lt_succ_self _
    · exact Nat.lt_succ_of_lt (linked.allocated there)
  older := by
    intro other otherDevice parent found above
    rcases World.link_devices found with ⟨rfl, rfl⟩ | ⟨before, there, rfl⟩
    · obtain ⟨parentDevice, parentFound⟩ :=
        Option.ne_none_iff_exists'.mp (parentLive parent above)
      exact linked.allocated parentFound
    · exact linked.older there above
  inParent := by
    intro other otherDevice parent found above
    rcases World.link_devices found with ⟨rfl, rfl⟩ | ⟨before, there, rfl⟩
    · obtain ⟨parentDevice, parentFound⟩ :=
        Option.ne_none_iff_exists'.mp (parentLive parent above)
      exact ⟨_, linked.link_kept parentFound, by simp [World.joining, above]⟩
    · obtain ⟨parentDevice, parentFound, listed⟩ := linked.inParent there above
      exact ⟨_, linked.link_kept parentFound, List.mem_append_left _ listed⟩
  child := by
    intro other otherDevice child found member
    rcases World.link_devices found with ⟨rfl, rfl⟩ | ⟨before, there, rfl⟩
    · simp [childless] at member
    rcases World.mem_joining member with listed | ⟨joins, rfl⟩
    · obtain ⟨below, belowFound, parent⟩ := linked.child there listed
      exact ⟨_, linked.link_kept belowFound, parent⟩
    · exact ⟨device, World.link_new, of_decide_eq_true joins⟩
  childrenNodup := by
    intro other otherDevice found
    rcases World.link_devices found with ⟨rfl, rfl⟩ | ⟨before, there, rfl⟩
    · simp [childless]
    apply World.nodup_joining (linked.childrenNodup there)
    intro child listed
    obtain ⟨below, belowFound, _⟩ := linked.child there listed
    exact linked.allocated belowFound
  inUclass := by
    intro other otherDevice found
    rcases World.link_devices found with ⟨rfl, rfl⟩ | ⟨before, there, rfl⟩
    · exact ⟨list ++ [world.next], by simp [World.link, World.joining, listed], by simp⟩
    · obtain ⟨list, listed, member⟩ := linked.inUclass there
      exact ⟨_, by rw [World.link]; dsimp only; rw [listed]; rfl, List.mem_append_left _ member⟩
  member := by
    intro uclass list other listed member
    obtain ⟨before, there, rfl⟩ := Option.map_eq_some_iff.mp listed
    rcases World.mem_joining member with inBefore | ⟨joins, rfl⟩
    · obtain ⟨otherDevice, otherFound, theirs⟩ := linked.member there inBefore
      exact ⟨_, linked.link_kept otherFound, theirs⟩
    · exact ⟨device, World.link_new, (of_decide_eq_true joins).symm⟩
  uclassNodup := by
    intro uclass list listed
    obtain ⟨before, there, rfl⟩ := Option.map_eq_some_iff.mp listed
    apply World.nodup_joining (linked.uclassNodup there)
    intro other inBefore
    obtain ⟨otherDevice, otherFound, _⟩ := linked.member there inBefore
    exact linked.allocated otherFound

theorem World.Linked.closed_link (linked : world.Linked) (closed : world.Closed)
    (inactive : device.activated = false) : (world.link device).Closed := by
  intro other otherDevice parent found above set
  rw [World.active_eq found] at set
  rcases World.link_devices found with ⟨rfl, rfl⟩ | ⟨before, there, rfl⟩
  · simp [inactive] at set
  · obtain ⟨parentDevice, parentFound, _⟩ := linked.inParent there above
    have parentSet := closed there above ((World.active_eq there).trans set)
    rw [World.active_eq parentFound] at parentSet
    rw [World.active_eq (linked.link_kept parentFound)]
    exact parentSet

theorem World.Linked.link_eq (linked : world.Linked)
    (parentLive : ∀ parent, device.parent = some parent → world.devices parent ≠ none)
    {list : List Nat} (listed : world.uclasses device.uclass = some list) :
    ∃ before, addSibling world.next device.parent
        ({ world with next := world.next + 1 }.setDevice world.next device) = .ok before ∧
      before.devices = (world.link device).devices ∧ before.uclasses = world.uclasses ∧
      before.setDevHead device.uclass (list ++ [world.next]) = world.link device := by
  have uclasses : Function.update world.uclasses device.uclass (some (list ++ [world.next])) =
      (world.link device).uclasses := by
    funext uclass
    by_cases same : uclass = device.uclass
    · simp [World.link, World.joining, same, listed]
    · simp [World.link, World.joining, same]
  have assembled : ∀ before : World, before.devices = (world.link device).devices →
      before.uclasses = world.uclasses → before.next = world.next + 1 →
      before.devices = (world.link device).devices ∧ before.uclasses = world.uclasses ∧
        before.setDevHead device.uclass (list ++ [world.next]) = world.link device := by
    rintro ⟨_, _, _⟩ rfl rfl rfl
    exact ⟨rfl, rfl, World.mk.injEq .. ▸ ⟨rfl, uclasses, rfl⟩⟩
  cases above : device.parent with
  | none =>
    refine ⟨_, rfl, assembled _ ?_ rfl rfl⟩
    funext other
    by_cases same : other = world.next
    · simp [World.link, World.setDevice, same]
    · simp [World.link, World.joining, World.setDevice, same, above]
  | some parent =>
    obtain ⟨parentDevice, parentFound⟩ := Option.ne_none_iff_exists'.mp (parentLive parent above)
    have different : parent ≠ world.next := Nat.ne_of_lt (linked.allocated parentFound)
    have read : ({ world with next := world.next + 1 }.setDevice world.next device).device
        parent = .ok parentDevice := by
      apply World.device_eq
      exact (Function.update_of_ne different ..).trans parentFound
    rw [addSibling, read, Exec.ok_bind]
    refine ⟨_, rfl, assembled _ ?_ rfl rfl⟩
    funext other
    by_cases up : other = parent
    · simp [World.link, World.joining, World.setDevice, up, different, parentFound, above]
    by_cases same : other = world.next
    · simp [World.link, World.setDevice, same, Ne.symm different]
    · simp [World.link, World.joining, World.setDevice, up, same, above, Ne.symm up]

theorem uclassGet_spec {answers : Answers} {uclass : Nat} (linked : world.Linked) :
    ∃ ret next, uclassGet answers uclass world = (ret, next) ∧ next.Linked ∧
      next.devices = world.devices ∧ next.next = world.next ∧
      (ret = 0 → next.uclasses uclass ≠ none) := by
  rw [uclassGet]
  split
  case h_1 list listed => exact ⟨0, world, rfl, linked, rfl, rfl, fun _ => by rw [listed]; simp⟩
  case h_2 missing =>
    split
    case isTrue failed => exact ⟨_, world, rfl, linked, rfl, rfl, fun zero => absurd zero failed⟩
    case isFalse =>
      have new : ∀ {other list}, (world.setDevHead uclass []).uclasses other = some list →
          list = [] ∨ world.uclasses other = some list := by
        intro other list listed
        by_cases same : other = uclass
        · subst same
          change Function.update _ _ _ _ = _ at listed
          rw [Function.update_self] at listed
          exact .inl (Option.some.inj listed).symm
        · exact .inr ((Function.update_of_ne same ..).symm.trans listed)
      refine ⟨0, _, rfl, { linked with inUclass := ?_, member := ?_, uclassNodup := ?_ }, rfl,
        rfl, fun _ => by simp [World.setDevHead]⟩
      · intro other otherDevice otherFound
        obtain ⟨list, listed, member⟩ := linked.inUclass otherFound
        have different : otherDevice.uclass ≠ uclass := by
          intro same
          rw [same, missing] at listed
          cases listed
        exact ⟨list, (Function.update_of_ne different ..).trans listed, member⟩
      · intro other list otherId listed member
        rcases new listed with rfl | old
        · cases member
        · exact linked.member old member
      · intro other list listed
        rcases new listed with rfl | old
        · exact List.nodup_nil
        · exact linked.uclassNodup old

theorem World.Closed.of_devices (closed : world.Closed) (same : next.devices = world.devices) :
    next.Closed := by
  intro other otherDevice parent found above set
  rw [same] at found
  rw [World.active, same] at set ⊢
  exact closed found above set

theorem failBind_eq (linked : world.Linked) (found : world.devices id = some device)
    (listed : world.uclasses device.uclass = some list) (ret : Int) :
    failBind ret id device.parent (world.setDevHead device.uclass (list.erase id)) =
      .ok (ret, world.unlink id) := by
  obtain ⟨before, taken, freed⟩ := linked.unlink_eq found listed
  rw [failBind, taken, Exec.ok_bind, freed]
  rfl

theorem World.setDevHead_setDevHead (uclass : Nat) (list others : List Nat) :
    (world.setDevHead uclass list).setDevHead uclass others = world.setDevHead uclass others := by
  simp [World.setDevHead]

theorem uclassBindDevice_eq (linked : next.Linked)
    (devices : before.devices = next.devices) (listed : before.uclasses uclass = some list)
    (both : before.setDevHead uclass (list ++ [id]) = next) :
    uclassBindDevice answers id uclass before = .ok (answers .postBind id,
      if answers .postBind id ≠ 0 then next.setDevHead uclass ((list ++ [id]).erase id)
      else next) := by
  have nextListed : next.uclasses uclass = some (list ++ [id]) := by
    rw [← both]
    exact Function.update_self ..
  have live : ∀ other ∈ list ++ [id], before.devices other ≠ none := by
    intro other member
    rw [devices]
    exact linked.live_member nextListed member
  have last : before.touch list.getLast?.toList = .ok () := by
    apply World.touch_eq
    intro other member
    exact live other (List.mem_append_left _ (List.mem_of_getLast? (Option.mem_toList.mp member)))
  have around : before.touch (neighbours (list ++ [id]) id) = .ok () := by
    apply World.touch_eq
    intro other member
    exact live other (neighbours_subset member)
  rw [uclassBindDevice, World.devHead_eq listed, Exec.ok_bind, last, Exec.ok_bind]
  split
  · rw [around, Exec.ok_bind, ← both, World.setDevHead_setDevHead]
    rfl
  case isFalse success =>
    rw [both, not_not.mp success]
    rfl

/-- A device that is bound is inactive. When binding fails it is not there, if the uclass
takes it back. -/
theorem deviceBind_spec (linked : world.Linked)
    (closed : world.Closed) (parentLive : ∀ id, parent = some id → world.devices id ≠ none)
    (takenBack : answers .bind world.next ≠ 0 → answers (.preUnbind true) world.next = 0) :
    ∃ ret next, deviceBind answers parent uclass named world = .ok (ret, next) ∧ next.Linked ∧
      next.Closed := by
  cases named with
  | false => exact ⟨_, world, rfl, linked, closed⟩
  | true =>
    obtain ⟨ret, known, got, knownLinked, same, allocates, exists_⟩ :=
      @uclassGet_spec world answers uclass linked
    have knownClosed : known.Closed := closed.of_devices same
    rw [deviceBind, got]
    simp only [Bool.not_true, Bool.false_eq_true, if_false]
    split
    · exact ⟨_, known, rfl, knownLinked, knownClosed⟩
    case isFalse success =>
      split
      · exact ⟨_, known, rfl, knownLinked, knownClosed⟩
      obtain ⟨list, listed⟩ := Option.ne_none_iff_exists'.mp (exists_ (not_not.mp success))
      rw [← same] at parentLive
      rw [← allocates] at takenBack
      let device : Device := ⟨parent, uclass, false, []⟩
      obtain ⟨before, added, devices, uclasses, both⟩ :=
        @World.Linked.link_eq known device knownLinked parentLive list listed
      have nextLinked : (known.link device).Linked :=
        knownLinked.link rfl parentLive listed
      have nextClosed : (known.link device).Closed := knownLinked.closed_link knownClosed rfl
      have nextListed : (known.link device).uclasses uclass = some (list ++ [known.next]) := by
        rw [← both]
        exact Function.update_self ..
      -- Whatever fails now, the device is taken out again.
      have unlinks := nextLinked.unbinds_unlink World.link_new (rfl : device.children = [])
      have failed : ∀ ret, failBind ret known.next parent ((known.link device).setDevHead uclass
          ((list ++ [known.next]).erase known.next)) =
            .ok (ret, (known.link device).unlink known.next) :=
        failBind_eq nextLinked World.link_new nextListed
      rw [added, Exec.ok_bind,
        uclassBindDevice_eq nextLinked devices (uclasses ▸ listed) both, Exec.ok_bind]
      dsimp only
      split
      · exact ⟨_, _, failed _, unlinks.linked, unlinks.closed nextClosed⟩
      split
      case isTrue refused =>
        rw [uclassUnbindDevice_eq nextLinked World.link_new nextListed (takenBack refused),
          Exec.ok_bind]
        exact ⟨_, _, failed _, unlinks.linked, unlinks.closed nextClosed⟩
      · exact ⟨0, known.link device, rfl, nextLinked, nextClosed⟩

end

end UBootV210.DriverModel
