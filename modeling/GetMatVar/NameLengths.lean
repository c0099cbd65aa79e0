import GetMatVar.ResolveReferences

namespace GetMatVar
namespace NameLengths

-- A string in a block of its own: the size of the block, the place of the
-- terminator that was written into it, and the characters read from it.
structure Stored where
  block : Nat
  written : Nat
  text : Text

-- A length and its string, which is NULL before it is set.
structure Name where
  length : UInt16
  string : Option Stored

def Name.text (name : Name) : Text := (name.string.map Stored.text).getD []

structure Named where
  shortName : Name
  longName : Name
  superObject : Option Nat

def initializeObject : Named := ⟨⟨0,none⟩,⟨0,none⟩,none⟩

structure Tree where
  objects : Nat → Named
  fresh : Nat

namespace Tree

def set (tree : Tree) (ptr : Nat) (named : Named) : Tree := {tree with objects:=Function.update tree.objects ptr named}

variable {tree : Tree} {ptr other : Nat} {named : Named}

@[simp] theorem set_same : (tree.set ptr named).objects ptr = named := by simp [set]

theorem set_other (different : other ≠ ptr) : (tree.set ptr named).objects other = tree.objects other := by
  simp [set,different]

def alloc (tree : Tree) (named : Named) : Tree := {tree.set tree.fresh named with fresh:=tree.fresh+1}

end Tree

def start : Tree := ⟨fun _ => initializeObject,1⟩

def strcpy (length : UInt16) (text : Text) : Name := ⟨length,some ⟨length.toNat+1,text.length,text⟩⟩

def sprintf (length : UInt16) (text : Text) : Name :=
  ⟨length,some ⟨length.toNat+1,text.length,text.take length.toNat⟩⟩

-- The dot is written at the length of the name in front, the short name behind it.
def dotted (superName : Name) (superText : Text) (shortLength : UInt16) (subObjName : Text) : Name :=
  let length := superName.length+1+shortLength
  let behind := superName.length.toNat+1
  ⟨length,some ⟨length.toNat+1,max superText.length (behind+subObjName.length),
    if superName.length.toNat ≤ superText.length then superText.take superName.length.toNat++dot::subObjName else superText⟩⟩

def longNameUnder (superName : Name) (shortLength : UInt16) (subObjName : Text) : Option Name :=
  if superName.length ≠ 0 then
    superName.string.map fun stored => dotted superName stored.text shortLength subObjName
  else some (strcpy shortLength subObjName)

-- subObjName is what strlen and strcpy read.
def connectSubObject (tree : Tree) (superObject : Nat) (subObjName : Text) : Option Tree := do
  let shortLength := UInt16.ofNat subObjName.length
  let longName ← longNameUnder (tree.objects superObject).longName shortLength subObjName
  some (tree.alloc ⟨strcpy shortLength subObjName,longName,some superObject⟩)

def cloneName (oldName : Name) : Option Name := oldName.string.map fun stored => strcpy oldName.length stored.text

def cloneData (tree : Tree) (oldObject : Nat) : Option Tree := do
  let longName ← cloneName (tree.objects oldObject).longName
  let shortName ← cloneName (tree.objects oldObject).shortName
  some (tree.alloc ⟨shortName,longName,(tree.objects oldObject).superObject⟩)

def toInt (i : Int) : Int := i.bmod (2^32)

-- The quotient of C is rounded towards zero.
def numDigits (n : Int) : UInt16 :=
  if last : n.tdiv 10 = 0 then 1 else numDigits (n.tdiv 10)+1
termination_by n.natAbs
decreasing_by
  rw [Int.natAbs_tdiv]
  apply Nat.div_lt_self _ (by decide)
  apply Nat.pos_of_ne_zero
  intro zero
  apply last
  rw [Int.natAbs_eq_zero.mp zero,Int.zero_tdiv]

def decimal (n : Int) : Text := if n < 0 then textOf "-"++digits n.natAbs else digits n.natAbs

def cellNames (object : Named) (n : Int) : Option (Name × Name) := do
  let stored ← object.longName.string
  some (sprintf (numDigits n+1) (decimal n++textOf "\x7d"),
    sprintf (object.longName.length+1+numDigits n+1) (stored.text++textOf "\x7b"++decimal n++textOf "\x7d"))

def structNames (object superObject : Named) (n : Int) : Option (Name × Name) := do
  let shortName ← object.shortName.string
  let longName ← superObject.longName.string
  some (sprintf object.shortName.length shortName.text,
    sprintf (superObject.longName.length+1+numDigits n+1+1+object.shortName.length)
      (longName.text++textOf "("++decimal n++textOf ")."++shortName.text))

-- The names of ref are freed before those of the others are read.
def elementNames (tree : Tree) (isStructArray : Bool) (object ref : Nat) (n : Int) : Option (Name × Name) :=
  if ref = object then none
  else if isStructArray then do
    let superObject ← (tree.objects object).superObject
    if ref = superObject then none else structNames (tree.objects object) (tree.objects superObject) n
  else cellNames (tree.objects object) n

-- (int)i + 1 overflows behind the last int.
def attachElement (tree : Tree) (isStructArray : Bool) (object ref : Nat) (i : Int) : Option Tree :=
  if toInt i = 2^31-1 then none
  else do
    let (shortName,longName) ← elementNames tree isStructArray object ref (toInt i+1)
    some (tree.set ref ⟨shortName,longName,some object⟩)

-- What happens to names in connectSubObject and fillObject.
inductive Operation where
  | connect (superObject : Nat) (subObjName : Text)
  | clone (oldObject : Nat)
  | attach (isStructArray : Bool) (object ref : Nat) (i : Int)

def step (tree : Tree) : Operation → Option Tree
  | .connect superObject subObjName => connectSubObject tree superObject subObjName
  | .clone oldObject => cloneData tree oldObject
  | .attach isStructArray object ref i => attachElement tree isStructArray object ref i

def Name.Sound (name : Name) : Prop :=
  match name.string with
  | none => name.length = 0
  | some stored => stored.text.length = name.length.toNat ∧ stored.written < stored.block

def Tree.Sound (tree : Tree) : Prop := ∀ ptr, (tree.objects ptr).shortName.Sound ∧ (tree.objects ptr).longName.Sound

section Writes
variable {name : Name} {length : UInt16} {text : Text}

theorem sound_text (sound : name.Sound) : name.text.length = name.length.toNat := by
  obtain ⟨length,_ | stored⟩ := name
  · cases sound
    rfl
  · exact sound.1

theorem sound_null (sound : name.Sound) (null : name.string = none) : name.length = 0 := by
  rw [Name.Sound,null] at sound
  exact sound

theorem stored_text {stored : Stored} (string : name.string = some stored) : name.text = stored.text := by
  rw [Name.text,string]
  rfl

theorem strcpy_exact : (strcpy length text).Sound ↔ text.length = length.toNat := by
  constructor
  · exact And.left
  · intro same
    exact ⟨same,by change text.length < length.toNat+1; omega⟩

theorem sprintf_exact : (sprintf length text).Sound ↔ text.length = length.toNat := by
  constructor
  · rintro ⟨same,inside⟩
    change (text.take length.toNat).length = length.toNat at same
    change text.length < length.toNat+1 at inside
    rw [List.length_take] at same
    omega
  · intro same
    refine ⟨?_,by change text.length < length.toNat+1; omega⟩
    change (text.take length.toNat).length = length.toNat
    rw [List.length_take,same,Nat.min_self]

theorem sprintf_text (same : text.length = length.toNat) : (sprintf length text).text = text := by
  change text.take length.toNat = text
  rw [← same,List.take_length]

theorem fits_exact {total : Nat} (wraps : length.toNat = total%2^16) : total = length.toNat ↔ total < 2^16 := by
  have low := length.toNat_lt
  omega

theorem dotted_text {superName : Name} {superText subObjName : Text} {shortLength : UInt16}
    (same : superText.length = superName.length.toNat) :
    (dotted superName superText shortLength subObjName).text = superText++dot::subObjName := by
  change (if _ then _ else _) = _
  rw [if_pos (Nat.le_of_eq same.symm),← same,List.take_length]

theorem dotted_exact {superName : Name} {superText subObjName : Text}
    (same : superText.length = superName.length.toNat) (short : subObjName.length < 2^16) :
    (dotted superName superText (UInt16.ofNat subObjName.length) subObjName).Sound ↔
      superText.length+1+subObjName.length < 2^16 := by
  have wraps : (superName.length+1+UInt16.ofNat subObjName.length).toNat = (superText.length+1+subObjName.length)%2^16 := by
    rw [UInt16.toNat_add,UInt16.toNat_add,UInt16.toNat_ofNat_of_lt' short,Nat.mod_add_mod,same]
    rfl
  rw [← fits_exact wraps]
  have text := @dotted_text superName superText subObjName (UInt16.ofNat subObjName.length) same
  have counted : (superText++dot::subObjName).length = superText.length+1+subObjName.length := by
    rw [List.length_append,List.length_cons]
    omega
  rw [← counted,← text]
  constructor
  · exact And.left
  · intro total
    refine ⟨total,?_⟩
    rw [text,counted] at total
    change max superText.length (superName.length.toNat+1+subObjName.length) < _+1
    omega

end Writes

section Digits
variable {n : Int}

theorem digits_shorter (number : Nat) :
    (digits number).length = if number < 10 then 1 else (digits (number/10)).length+1 := by
  rw [digits,List.length_map,Nat.toDigits_eq_if (by decide)]
  split
  · rfl
  · rw [List.length_append,digits,List.length_map]
    rfl

theorem digits_few (number bound : Nat) (some_digit : 0 < bound) (low : number < 10^bound) :
    (digits number).length ≤ bound := by
  rw [digits,List.length_map]
  exact (Nat.length_toDigits_le_iff (by decide) some_digit).mpr low

theorem numDigits_exact (n : Int) : (numDigits n).toNat = (digits n.natAbs).length%2^16 := by
  induction n using numDigits.induct with
  | case1 n last =>
    rw [numDigits,dif_pos last,digits_shorter]
    have small : n.natAbs/10 = 0 := (Int.natAbs_tdiv n 10).symm.trans (congrArg Int.natAbs last)
    rw [if_pos (by omega)]
    rfl
  | case2 n more ih =>
    have large : n.natAbs/10 ≠ 0 := fun zero => more (Int.natAbs_eq_zero.mp ((Int.natAbs_tdiv n 10).trans zero))
    have shorter : (n.tdiv 10).natAbs = n.natAbs/10 := Int.natAbs_tdiv n 10
    rw [numDigits,dif_neg more,UInt16.toNat_add,ih,shorter,digits_shorter n.natAbs,if_neg (by omega),Nat.mod_add_mod]
    rfl

theorem toInt_bounds (i : Int) : -2^31 ≤ toInt i ∧ toInt i < 2^31 :=
  ⟨Int.le_bmod (by decide),Int.bmod_lt (by decide)⟩

theorem numDigits_int (low : -2^31 ≤ n) (high : n ≤ 2^31) :
    (numDigits n).toNat = (digits n.natAbs).length ∧ (digits n.natAbs).length ≤ 10 := by
  have few := digits_few n.natAbs 10 (by decide) (by omega)
  exact ⟨(numDigits_exact n).trans (Nat.mod_eq_of_lt (by omega)),few⟩

theorem decimal_length (n : Int) : (decimal n).length = (digits n.natAbs).length+if n < 0 then 1 else 0 := by
  rw [decimal]
  split
  · rw [List.length_append,Nat.add_comm]
    rfl
  · rfl

end Digits

def FitsCell (object : Named) (n : Int) : Prop :=
  object.longName.string.isSome ∧ object.longName.text.length+1+(digits n.natAbs).length+1 < 2^16

def FitsStruct (object superObject : Named) (n : Int) : Prop :=
  object.shortName.string.isSome ∧ superObject.longName.string.isSome ∧
    superObject.longName.text.length+1+(digits n.natAbs).length+1+1+object.shortName.text.length < 2^16

def Fits (tree : Tree) : Operation → Prop
  | .connect superObject subObjName => subObjName.length < 2^16 ∧
      ((tree.objects superObject).longName.text ≠ [] →
        (tree.objects superObject).longName.text.length+1+subObjName.length < 2^16)
  | .clone oldObject => (tree.objects oldObject).longName.string.isSome ∧ (tree.objects oldObject).shortName.string.isSome
  | .attach isStructArray object ref i =>
      ref ≠ object ∧ 0 ≤ toInt i+1 ∧ toInt i+1 < 2^31 ∧
        if isStructArray then ∃ superObject, (tree.objects object).superObject = some superObject ∧ ref ≠ superObject ∧
          FitsStruct (tree.objects object) (tree.objects superObject) (toInt i+1)
        else FitsCell (tree.objects object) (toInt i+1)

section Steps
variable {tree : Tree}

theorem set_exact (sound : tree.Sound) (ptr : Nat) (named : Named) :
    (tree.set ptr named).Sound ↔ named.shortName.Sound ∧ named.longName.Sound := by
  constructor
  · intro after
    have here := after ptr
    rwa [Tree.set_same] at here
  · intro here other
    by_cases same : other = ptr
    · subst same
      rwa [Tree.set_same]
    · rw [Tree.set_other same]
      exact sound other

theorem alloc_exact (sound : tree.Sound) (named : Named) :
    (tree.alloc named).Sound ↔ named.shortName.Sound ∧ named.longName.Sound := set_exact sound tree.fresh named

theorem longNameUnder_exact {superName : Name} {subObjName : Text} (sound : superName.Sound)
    (short : subObjName.length < 2^16) :
    (∃ longName, longNameUnder superName (UInt16.ofNat subObjName.length) subObjName = some longName ∧ longName.Sound) ↔
      (superName.text ≠ [] → superName.text.length+1+subObjName.length < 2^16) := by
  have counted := sound_text sound
  by_cases empty : superName.length = 0
  · rw [longNameUnder,if_neg (not_not.mpr empty)]
    rw [empty] at counted
    apply iff_of_true
    · exact ⟨_,rfl,strcpy_exact.mpr (UInt16.toNat_ofNat_of_lt' short).symm⟩
    · exact fun some_text => absurd (List.length_eq_zero_iff.mp counted) some_text
  · have some_length : superName.length.toNat ≠ 0 := fun zero => empty (UInt16.toNat_inj.mp zero)
    have some_text : superName.text ≠ [] := fun none => some_length (by rw [← counted,none]; rfl)
    rw [longNameUnder,if_pos empty]
    cases string : superName.string with
    | none => exact absurd (sound_null sound string) empty
    | some stored =>
      rw [stored_text string] at counted some_text ⊢
      simp only [Option.map_some,Option.some.injEq,exists_eq_left']
      rw [dotted_exact counted short]
      exact ⟨fun fits _ => fits,fun fits => fits some_text⟩

theorem connectSubObject_exact (sound : tree.Sound) (superObject : Nat) (subObjName : Text) :
    (∃ next, connectSubObject tree superObject subObjName = some next ∧ next.Sound) ↔
      Fits tree (.connect superObject subObjName) := by
  constructor
  · rintro ⟨next,ran,after⟩
    simp only [connectSubObject,Option.bind_eq_bind,Option.bind_eq_some_iff,Option.some.injEq] at ran
    obtain ⟨longName,long,rfl⟩ := ran
    rw [alloc_exact sound,strcpy_exact,UInt16.toNat_ofNat'] at after
    have short : subObjName.length < 2^16 := by
      rw [after.1]
      exact Nat.mod_lt _ (by decide)
    exact ⟨short,(longNameUnder_exact (sound superObject).2 short).mp ⟨longName,long,after.2⟩⟩
  · rintro ⟨short,fits⟩
    obtain ⟨longName,long,inside⟩ := (longNameUnder_exact (sound superObject).2 short).mpr fits
    refine ⟨tree.alloc ⟨_,longName,some superObject⟩,by simp only [connectSubObject,long]; rfl,?_⟩
    exact (alloc_exact sound _).mpr ⟨strcpy_exact.mpr (UInt16.toNat_ofNat_of_lt' short).symm,inside⟩

theorem cloneName_sound {oldName newName : Name} (sound : oldName.Sound) (cloned : cloneName oldName = some newName) :
    newName.Sound := by
  obtain ⟨length,_ | stored⟩ := oldName
  · cases cloned
  · cases cloned
    exact strcpy_exact.mpr sound.1

theorem cloneName_isSome (oldName : Name) : (cloneName oldName).isSome = oldName.string.isSome := Option.isSome_map

theorem cloneData_exact (sound : tree.Sound) (oldObject : Nat) :
    (∃ next, cloneData tree oldObject = some next ∧ next.Sound) ↔ Fits tree (.clone oldObject) := by
  constructor
  · rintro ⟨next,ran,_⟩
    simp only [cloneData,Option.bind_eq_bind,Option.bind_eq_some_iff,Option.some.injEq] at ran
    obtain ⟨longName,long,shortName,short,_⟩ := ran
    rw [Fits,← cloneName_isSome,← cloneName_isSome,long,short]
    exact ⟨rfl,rfl⟩
  · rintro ⟨long,short⟩
    rw [← cloneName_isSome] at long short
    obtain ⟨longName,long⟩ := Option.isSome_iff_exists.mp long
    obtain ⟨shortName,short⟩ := Option.isSome_iff_exists.mp short
    refine ⟨tree.alloc ⟨shortName,longName,_⟩,by simp only [cloneData,long,short]; rfl,?_⟩
    exact (alloc_exact sound _).mpr
      ⟨cloneName_sound (sound oldObject).1 short,cloneName_sound (sound oldObject).2 long⟩

theorem no_result {α : Type} {property : α → Prop} : ¬∃ result, none = some result ∧ property result :=
  fun ⟨_,no,_⟩ => nomatch no

-- What is printed is longer than what was counted by the sign alone.
theorem print_exact {length : UInt16} {text : Text} {total sign : Nat} (wraps : length.toNat = total%2^16)
    (counted : text.length = total+sign) : (sprintf length text).Sound ↔ sign = 0 ∧ total < 2^16 := by
  rw [sprintf_exact,counted,wraps]
  omega

theorem sign_exact (n : Int) : (if n < 0 then 1 else 0) = 0 ↔ 0 ≤ n := by
  split <;> omega

section Elements
variable {object superObject : Named} {n : Int} (low : -2^31 ≤ n) (high : n ≤ 2^31)

include low high

theorem cell_short : (sprintf (numDigits n+1) (decimal n++textOf "\x7d")).Sound ↔ 0 ≤ n := by
  obtain ⟨counter,few⟩ := numDigits_int low high
  have wraps : (numDigits n+1).toNat = ((digits n.natAbs).length+1)%2^16 := by
    rw [UInt16.toNat_add,counter]
    rfl
  have counted : (decimal n++textOf "\x7d").length = (digits n.natAbs).length+1+if n < 0 then 1 else 0 := by
    rw [List.length_append,decimal_length]
    change _+_+1 = _
    omega
  rw [print_exact wraps counted,sign_exact]
  omega

theorem cell_long {longName : Name} {text : Text} (same : text.length = longName.length.toNat) :
    (sprintf (longName.length+1+numDigits n+1) (text++textOf "\x7b"++decimal n++textOf "\x7d")).Sound ↔
      0 ≤ n ∧ text.length+1+(digits n.natAbs).length+1 < 2^16 := by
  have wraps : (longName.length+1+numDigits n+1).toNat = (text.length+1+(digits n.natAbs).length+1)%2^16 := by
    simp only [UInt16.toNat_add,(numDigits_int low high).1,same,Nat.mod_add_mod]
    rfl
  have counted : (text++textOf "\x7b"++decimal n++textOf "\x7d").length =
      text.length+1+(digits n.natAbs).length+1+if n < 0 then 1 else 0 := by
    simp only [List.length_append,decimal_length]
    change _+1+_+1 = _
    omega
  rw [print_exact wraps counted,sign_exact]

theorem struct_long {shortName longName : Name} {short long : Text} (sameShort : short.length = shortName.length.toNat)
    (sameLong : long.length = longName.length.toNat) :
    (sprintf (longName.length+1+numDigits n+1+1+shortName.length)
      (long++textOf "("++decimal n++textOf ")."++short)).Sound ↔
      0 ≤ n ∧ long.length+1+(digits n.natAbs).length+1+1+short.length < 2^16 := by
  have wraps : (longName.length+1+numDigits n+1+1+shortName.length).toNat =
      (long.length+1+(digits n.natAbs).length+1+1+short.length)%2^16 := by
    simp only [UInt16.toNat_add,(numDigits_int low high).1,sameShort,sameLong,Nat.mod_add_mod]
    rfl
  have counted : (long++textOf "("++decimal n++textOf ")."++short).length =
      long.length+1+(digits n.natAbs).length+1+1+short.length+if n < 0 then 1 else 0 := by
    simp only [List.length_append,decimal_length]
    change _+1+_+2+_ = _
    omega
  rw [print_exact wraps counted,sign_exact]

theorem cellNames_exact (sound : object.longName.Sound) :
    (∃ names, cellNames object n = some names ∧ names.1.Sound ∧ names.2.Sound) ↔ 0 ≤ n ∧ FitsCell object n := by
  rw [cellNames,FitsCell]
  cases string : object.longName.string with
  | none => exact iff_of_false no_result (fun ⟨_,no,_⟩ => nomatch no)
  | some stored =>
    have same := sound_text sound
    rw [stored_text string] at same ⊢
    constructor
    · rintro ⟨_,made,_,long⟩
      obtain rfl := Option.some.inj made
      obtain ⟨whole,fits⟩ := (cell_long low high same).mp long
      exact ⟨whole,rfl,fits⟩
    · rintro ⟨whole,_,fits⟩
      exact ⟨_,rfl,(cell_short low high).mpr whole,(cell_long low high same).mpr ⟨whole,fits⟩⟩

theorem structNames_exact (sound : object.shortName.Sound) (soundSuper : superObject.longName.Sound) :
    (∃ names, structNames object superObject n = some names ∧ names.1.Sound ∧ names.2.Sound) ↔
      0 ≤ n ∧ FitsStruct object superObject n := by
  rw [structNames,FitsStruct]
  cases short : object.shortName.string with
  | none => exact iff_of_false no_result (fun ⟨_,no,_⟩ => nomatch no)
  | some shortName =>
    cases long : superObject.longName.string with
    | none => exact iff_of_false no_result (fun ⟨_,_,no,_⟩ => nomatch no)
    | some longName =>
      have sameShort := sound_text sound
      have sameLong := sound_text soundSuper
      rw [stored_text short] at sameShort ⊢
      rw [stored_text long] at sameLong ⊢
      constructor
      · rintro ⟨_,made,_,printed⟩
        obtain rfl := Option.some.inj made
        obtain ⟨whole,fits⟩ := (struct_long low high sameShort sameLong).mp printed
        exact ⟨whole,rfl,rfl,fits⟩
      · rintro ⟨whole,_,_,fits⟩
        exact ⟨_,rfl,sprintf_exact.mpr sameShort,(struct_long low high sameShort sameLong).mpr ⟨whole,fits⟩⟩

end Elements

theorem elementNames_exact (sound : tree.Sound) (isStructArray : Bool) (object ref : Nat) {n : Int} (low : -2^31 ≤ n)
    (high : n ≤ 2^31) :
    (∃ names, elementNames tree isStructArray object ref n = some names ∧ names.1.Sound ∧ names.2.Sound) ↔
      ref ≠ object ∧ 0 ≤ n ∧
        if isStructArray then ∃ superObject, (tree.objects object).superObject = some superObject ∧ ref ≠ superObject ∧
          FitsStruct (tree.objects object) (tree.objects superObject) n
        else FitsCell (tree.objects object) n := by
  by_cases same : ref = object
  · simp only [elementNames,if_pos same]
    exact iff_of_false no_result (fun fits => fits.1 same)
  · simp only [elementNames,if_neg same]
    cases isStructArray with
    | false =>
      exact (cellNames_exact low high (sound object).2).trans ⟨fun fits => ⟨same,fits⟩,And.right⟩
    | true =>
      cases (tree.objects object).superObject with
      | none => exact iff_of_false no_result (fun ⟨_,_,_,no,_⟩ => nomatch no)
      | some superObject =>
        have printed := structNames_exact low high (sound object).1 (sound superObject).2
        change (∃ names, (if ref = superObject then none else _) = some names ∧ _) ↔ _
        by_cases above : ref = superObject
        · rw [if_pos above]
          apply iff_of_false no_result
          rintro ⟨_,_,other,is_super,different,_⟩
          exact different (above.trans (Option.some.inj is_super))
        · rw [if_neg above]
          constructor
          · intro made
            obtain ⟨positive,fits⟩ := printed.mp made
            exact ⟨same,positive,superObject,rfl,above,fits⟩
          · rintro ⟨_,positive,other,is_super,_,fits⟩
            cases is_super
            exact printed.mpr ⟨positive,fits⟩

theorem attachElement_exact (sound : tree.Sound) (isStructArray : Bool) (object ref : Nat) (i : Int) :
    (∃ next, attachElement tree isStructArray object ref i = some next ∧ next.Sound) ↔
      Fits tree (.attach isStructArray object ref i) := by
  obtain ⟨low,high⟩ := toInt_bounds i
  have named := elementNames_exact sound isStructArray object ref (by omega : -2^31 ≤ toInt i+1) (by omega)
  rw [attachElement,Fits]
  by_cases last : toInt i = 2^31-1
  · rw [if_pos last]
    exact iff_of_false no_result (fun fits => by omega)
  · rw [if_neg last]
    have whole : toInt i+1 < 2^31 := by omega
    constructor
    · rintro ⟨next,ran,after⟩
      simp only [Option.bind_eq_bind,Option.bind_eq_some_iff] at ran
      obtain ⟨names,printed,made⟩ := ran
      obtain rfl := Option.some.inj made
      obtain ⟨different,positive,fits⟩ := named.mp ⟨names,printed,(set_exact sound ref _).mp after⟩
      exact ⟨different,positive,whole,fits⟩
    · rintro ⟨different,positive,_,fits⟩
      obtain ⟨names,printed,inside⟩ := named.mpr ⟨different,positive,fits⟩
      rw [printed]
      exact ⟨_,rfl,(set_exact sound ref _).mpr inside⟩

end Steps

def SameNames (data : Data) (named : Named) : Prop :=
  data.shortName = named.shortName.text ∧ data.longName = named.longName.text ∧ data.superObject = named.superObject

def Holds (heap : Heap) (tree : Tree) : Prop :=
  tree.fresh = heap.fresh ∧ ∀ ptr, SameNames (heap.objects ptr) (tree.objects ptr)

section Heaps
variable {heap after : Heap} {tree next : Tree}

theorem update_holds (holds : Holds heap tree) (ptr : Nat) (change : Data → Data)
    (keeps : ∀ data named, SameNames data named → SameNames (change data) named) : Holds (heap.update ptr change) tree := by
  refine ⟨holds.1,?_⟩
  intro other
  by_cases same : other = ptr
  · subst same
    rw [Heap.update_same]
    exact keeps _ _ (holds.2 other)
  · rw [Heap.update_other change same]
    exact holds.2 other

theorem alloc_holds (holds : Holds heap tree) {data : Data} {named : Named} (same : SameNames data named) :
    Holds (heap.alloc data) (tree.alloc named) := by
  refine ⟨congrArg (·+1) holds.1,?_⟩
  intro other
  change SameNames _ ((tree.set tree.fresh named).objects other)
  by_cases new : other = heap.fresh
  · subst new
    rw [Heap.alloc_same,← holds.1,Tree.set_same]
    exact same
  · rw [Heap.alloc_other data new,Tree.set_other (holds.1 ▸ new)]
    exact holds.2 other

theorem set_holds (holds : Holds heap tree) (ptr : Nat) {change : Data → Data} {named : Named}
    (same : SameNames (change (heap.objects ptr)) named) : Holds (heap.update ptr change) (tree.set ptr named) := by
  refine ⟨holds.1,?_⟩
  intro other
  by_cases here : other = ptr
  · subst here
    rw [Heap.update_same,Tree.set_same]
    exact same
  · rw [Heap.update_other change here,Tree.set_other here]
    exact holds.2 other

theorem longNameUnder_text {superName longName : Name} {shortLength : UInt16} {subObjName : Text} (sound : superName.Sound)
    (made : longNameUnder superName shortLength subObjName = some longName) :
    longName.text = GetMatVar.longNameUnder superName.text subObjName := by
  have counted := sound_text sound
  rw [longNameUnder] at made
  rw [GetMatVar.longNameUnder]
  by_cases empty : superName.length = 0
  · rw [if_neg (not_not.mpr empty)] at made
    cases made
    rw [empty] at counted
    rw [if_neg (not_not.mpr (List.length_eq_zero_iff.mp counted))]
    rfl
  · have some_length : superName.length.toNat ≠ 0 := fun zero => empty (UInt16.toNat_inj.mp zero)
    rw [if_pos empty,Option.map_eq_some_iff] at made
    obtain ⟨stored,string,rfl⟩ := made
    rw [stored_text string] at counted ⊢
    rw [dotted_text counted,if_pos fun none => some_length (by rw [← counted,none]; rfl)]
    simp

theorem connectSubObject_holds (sound : tree.Sound) (holds : Holds heap tree) {superObject address subObject : Nat}
    {subObjName : Text} (ran : GetMatVar.connectSubObject heap superObject address subObjName = some (subObject,after)) :
    ∃ next, step tree (.connect superObject subObjName) = some next ∧ next.Sound ∧ Holds after next := by
  rw [GetMatVar.connectSubObject] at ran
  split at ran
  next fits =>
    cases ran
    rw [(holds.2 superObject).2.1] at fits ⊢
    have here : Fits tree (.connect superObject subObjName) := by
      refine ⟨fits.1,?_⟩
      intro some_text
      have long := fits.2
      rw [GetMatVar.longNameUnder,if_pos some_text] at long
      simp only [List.length_append,List.length_cons,List.length_nil] at long
      omega
    obtain ⟨next,connected,inside⟩ := (connectSubObject_exact sound superObject subObjName).mpr here
    refine ⟨next,connected,inside,?_⟩
    simp only [connectSubObject,Option.bind_eq_bind,Option.bind_eq_some_iff,Option.some.injEq] at connected
    obtain ⟨longName,long,rfl⟩ := connected
    apply update_holds
    · apply alloc_holds holds
      exact ⟨rfl,(longNameUnder_text (sound superObject).2 long).symm,rfl⟩
    · exact fun _ _ same => same
  next => cases ran

theorem toInt_small {i : Nat} (few : i+1 < 2^31) : toInt i = i := Int.bmod_eq_of_le (by omega) (by omega)

theorem decimal_next (i : Nat) : decimal ((i : Int)+1) = digits (i+1) := if_neg (by omega)

theorem printed_text {length : UInt16} {text : Text} (sound : (sprintf length text).Sound) :
    (sprintf length text).text = text := sprintf_text (sprintf_exact.mp sound)

section Printing
variable {object superObject : Named} {i : Nat} (few : i+1 < 2^31)

include few

theorem cellNames_text (sound : object.longName.Sound) (present : object.longName.string.isSome)
    (fits : (object.longName.text++textOf "\x7b"++digits (i+1)++textOf "\x7d").length < 2^16) :
    ∃ names, cellNames object ((i : Int)+1) = some names ∧ (names.1.Sound ∧ names.2.Sound) ∧
      names.1.text = digits (i+1)++textOf "\x7d" ∧
      names.2.text = object.longName.text++textOf "\x7b"++digits (i+1)++textOf "\x7d" := by
  have low : -2^31 ≤ (i : Int)+1 := by omega
  have high : (i : Int)+1 ≤ 2^31 := by omega
  obtain ⟨stored,string⟩ := Option.isSome_iff_exists.mp present
  have same := sound_text sound
  rw [stored_text string] at same fits ⊢
  simp only [List.length_append] at fits
  have short := (cell_short low high).mpr (by omega)
  have long := (cell_long low high same).mpr ⟨by omega,fits⟩
  refine ⟨_,by rw [cellNames,string]; rfl,⟨short,long⟩,?_,?_⟩
  · rw [printed_text short,decimal_next]
  · rw [printed_text long,decimal_next]

theorem structNames_text (sound : object.shortName.Sound) (soundSuper : superObject.longName.Sound)
    (present : object.shortName.string.isSome) (presentSuper : superObject.longName.string.isSome)
    (fits : (superObject.longName.text++textOf "("++digits (i+1)++textOf ")."++object.shortName.text).length < 2^16) :
    ∃ names, structNames object superObject ((i : Int)+1) = some names ∧ (names.1.Sound ∧ names.2.Sound) ∧
      names.1.text = object.shortName.text ∧
      names.2.text = superObject.longName.text++textOf "("++digits (i+1)++textOf ")."++object.shortName.text := by
  have low : -2^31 ≤ (i : Int)+1 := by omega
  have high : (i : Int)+1 ≤ 2^31 := by omega
  obtain ⟨stored,string⟩ := Option.isSome_iff_exists.mp present
  obtain ⟨storedSuper,stringSuper⟩ := Option.isSome_iff_exists.mp presentSuper
  have sameShort := sound_text sound
  have sameLong := sound_text soundSuper
  rw [stored_text string] at sameShort fits ⊢
  rw [stored_text stringSuper] at sameLong fits ⊢
  simp only [List.length_append] at fits
  have short := sprintf_exact.mpr sameShort
  have long := (struct_long low high sameShort sameLong).mpr ⟨by omega,fits⟩
  refine ⟨_,by rw [structNames,string,stringSuper]; rfl,⟨short,long⟩,printed_text short,?_⟩
  rw [printed_text long,decimal_next]

end Printing

-- The strings that an element is named from are there.
structure Printable (tree : Tree) (object : Nat) : Prop where
  shortName : (tree.objects object).shortName.string.isSome
  longName : (tree.objects object).longName.string.isSome
  superName : ∀ superObject, (tree.objects object).superObject = some superObject →
    (tree.objects superObject).longName.string.isSome

theorem elementNames_holds (sound : tree.Sound) (holds : Holds heap tree) {object ref i : Nat} {shortName longName : Text}
    (printable : Printable tree object) (few : i+1 < 2^31) (fits : longName.length < 2^16)
    (named : GetMatVar.elementNames object heap ref i = some (shortName,longName)) :
    ∃ names, elementNames tree (heap.objects object).isStructArray object ref ((i : Int)+1) = some names ∧
      (names.1.Sound ∧ names.2.Sound) ∧ names.1.text = shortName ∧ names.2.text = longName := by
  obtain ⟨sameShort,sameLong,sameSuper⟩ := holds.2 object
  rw [GetMatVar.elementNames] at named
  split at named
  next => cases named
  next different =>
    rw [elementNames,if_neg different]
    split at named
    next isStructArray =>
      obtain ⟨superObject,above,named⟩ := Option.bind_eq_some_iff.mp named
      split at named
      next => cases named
      next apart =>
        cases named
        rw [(holds.2 superObject).2.1,sameShort] at fits ⊢
        rw [sameSuper] at above
        obtain ⟨names,made,texts⟩ := structNames_text few (sound object).1 (sound superObject).2 printable.shortName
          (printable.superName superObject above) fits
        refine ⟨names,?_,texts⟩
        rw [if_pos isStructArray,above]
        exact (if_neg apart).trans made
    next isCell =>
      cases named
      rw [sameLong] at fits ⊢
      rw [if_neg isCell]
      exact cellNames_text few (sound object).2 printable.longName fits

theorem attachElement_holds (sound : tree.Sound) (holds : Holds heap tree) {object ref i : Nat}
    (printable : Printable tree object) (ran : GetMatVar.attachElement object ref i heap = some after) :
    ∃ next, step tree (.attach (heap.objects object).isStructArray object ref i) = some next ∧ next.Sound ∧
      Holds after next := by
  have different := (GetMatVar.attachElement_exact ran).1
  obtain ⟨⟨shortName,longName⟩,named,rest⟩ := Option.bind_eq_some_iff.mp ran
  have placed : Holds ((heap.update ref fun data => {data with sCArrayIndex:=i}).update object fun data => {data with
      subObjects:=enqueue data.subObjects ref}) tree := by
    apply update_holds
    · apply update_holds holds
      exact fun _ _ same => same
    · exact fun _ _ same => same
  simp only at rest
  split at rest
  next fits =>
    cases rest
    obtain ⟨names,made,inside,sameShort,sameLong⟩ := elementNames_holds sound placed printable fits.1 fits.2.2 named
    refine ⟨tree.set ref ⟨names.1,names.2,some object⟩,?_,(set_exact sound ref _).mpr inside,?_⟩
    · rw [step,attachElement,toInt_small fits.1,if_neg (by omega)]
      rw [Heap.update_same,Heap.update_other _ (Ne.symm different)] at made
      rw [made]
      rfl
    · exact set_holds placed ref ⟨sameShort.symm,sameLong.symm,rfl⟩
  next => cases rest

end Heaps

theorem step_exact {tree : Tree} (sound : tree.Sound) (operation : Operation) :
    (∃ next, step tree operation = some next ∧ next.Sound) ↔ Fits tree operation := by
  cases operation with
  | connect superObject subObjName => exact connectSubObject_exact sound superObject subObjName
  | clone oldObject => exact cloneData_exact sound oldObject
  | attach isStructArray object ref i => exact attachElement_exact sound isStructArray object ref i

def Counted (tree : Tree) : List Operation → Prop
  | [] => tree.Sound
  | operation::operations => tree.Sound ∧ ∃ next, step tree operation = some next ∧ Counted next operations

def Fitting (tree : Tree) : List Operation → Prop
  | [] => True
  | operation::operations => Fits tree operation ∧ ∀ next, step tree operation = some next → Fitting next operations

theorem counted_here {tree : Tree} {operations : List Operation} (counted : Counted tree operations) : tree.Sound := by
  cases operations with
  | nil => exact counted
  | cons => exact counted.1

theorem start_sound : start.Sound := fun _ => ⟨rfl,rfl⟩

theorem run_exact {tree : Tree} (sound : tree.Sound) (operations : List Operation) :
    Counted tree operations ↔ Fitting tree operations := by
  induction operations generalizing tree with
  | nil => exact iff_of_true sound trivial
  | cons operation operations ih =>
    constructor
    · rintro ⟨_,next,ran,counted⟩
      have after := counted_here counted
      refine ⟨(step_exact sound operation).mp ⟨next,ran,after⟩,?_⟩
      intro other again
      rw [ran] at again
      cases again
      exact (ih after).mp counted
    · rintro ⟨fits,fitting⟩
      obtain ⟨next,ran,after⟩ := (step_exact sound operation).mpr fits
      exact ⟨sound,next,ran,(ih after).mpr (fitting next ran)⟩

theorem names_exact (operations : List Operation) : Counted start operations ↔ Fitting start operations :=
  run_exact start_sound operations

-- One name of 2^16 characters.
theorem names_long : ¬Counted start [.connect 0 (List.replicate (2^16) 97)] := by
  intro counted
  obtain ⟨⟨short,_⟩,_⟩ := (run_exact start_sound _).mp counted
  rw [List.length_replicate] at short
  exact Nat.lt_irrefl _ short

end NameLengths
end GetMatVar
