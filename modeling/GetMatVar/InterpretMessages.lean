import GetMatVar.CollectMetaData

namespace GetMatVar

-- A message of an object header: the address of its sub-header and how many
-- continuation blocks are open around it.
structure MessagePlace where
  address : Nat
  depth : Nat
deriving DecidableEq,Repr

-- A message that the loop has gone through, and whether it went to a reader.
structure Dispatch extends MessagePlace where
  applied : Bool
deriving DecidableEq,Repr

-- A block of messages with the bytes of it that are gone through.
structure Block where
  start : Nat
  length : Nat
  bytesRead : Nat
deriving DecidableEq,Repr

section Model
variable (file : MatFile)

def MatFile.typeAt (file : MatFile) (address : Nat) : MessageType := messageTypeOf (file.number address 2)

def MatFile.sizeAt (file : MatFile) (address : Nat) : Nat := file.number (address+2) 2

def MatFile.continuedAt (file : MatFile) (address : Nat) : Block :=
  ⟨file.address (address+msgSubHeaderSize),
    file.number (address+msgSubHeaderSize+file.sBlock.sizeOfOffsets) file.sBlock.sizeOfLengths%2^32,0⟩

-- The depth-first expansion of a header: the messages of a continuation block
-- directly after the continuation message, then the rest of the outer block. A
-- block that continues into itself makes it endless, so count bounds it.
def expand (wrap : Nat → Nat) : Nat → List Block → List MessagePlace
  | 0,_ => []
  | count+1,blocks =>
    match blocks.dropWhile (fun block => block.length ≤ block.bytesRead) with
    | [] => []
    | block::outer =>
      let address := block.start+block.bytesRead
      let after := {block with bytesRead:=wrap (block.bytesRead+file.sizeAt address+msgSubHeaderSize)}
      ⟨address,outer.length⟩::expand wrap count
        (if file.typeAt address = .continuation then file.continuedAt address::after::outer else after::outer)

-- A run of interpretMessages as a derivation, with the messages it goes through:
-- message_num, bytes_read, repeat_tracker and the fields at the start of a turn of
-- the loop, and what is returned in the end.
inductive Interprets (numMsgs : Nat) : Nat → Block → Nat → RepeatTracker → MetaData →
    List Dispatch → Option (Nat × Nat × MetaData) → Prop where
  | done : ¬(messageNum < numMsgs ∧ block.bytesRead < block.length) →
      Interprets numMsgs depth block messageNum tracker object [] (some ((messageNum+65535)%65536,0,object))
  | rejected : messageNum < numMsgs ∧ block.bytesRead < block.length →
      address = block.start+block.bytesRead →
      taken = takeMessage file tracker (file.typeAt address) (address+msgSubHeaderSize) object →
      (∀ after, taken ≠ some (0,after)) →
      Interprets numMsgs depth block messageNum tracker object
        [⟨⟨address,depth⟩,!tracker.skips (file.typeAt address)⟩] (taken.map fun read => (numMsgs,read))
  | message : messageNum < numMsgs ∧ block.bytesRead < block.length →
      address = block.start+block.bytesRead → file.typeAt address ≠ .continuation →
      takeMessage file tracker (file.typeAt address) (address+msgSubHeaderSize) object = some (0,middle) →
      Interprets numMsgs depth {block with bytesRead:=(block.bytesRead+file.sizeAt address+msgSubHeaderSize)%2^32}
        (messageNum+1) (tracker.mark (file.typeAt address)) middle rest result →
      Interprets numMsgs depth block messageNum tracker object
        (⟨⟨address,depth⟩,!tracker.skips (file.typeAt address)⟩::rest) result
  | stopped : messageNum < numMsgs ∧ block.bytesRead < block.length →
      address = block.start+block.bytesRead → file.typeAt address = .continuation →
      takeMessage file tracker (file.typeAt address) (address+msgSubHeaderSize) object = some (0,middle) →
      Interprets numMsgs (depth+1) (file.continuedAt address) (messageNum+1) tracker middle nested result →
      (∀ last after, result ≠ some (last,0,after)) →
      Interprets numMsgs depth block messageNum tracker object
        (⟨⟨address,depth⟩,!tracker.skips (file.typeAt address)⟩::nested) result
  | continued : messageNum < numMsgs ∧ block.bytesRead < block.length →
      address = block.start+block.bytesRead → file.typeAt address = .continuation →
      takeMessage file tracker (file.typeAt address) (address+msgSubHeaderSize) object = some (0,middle) →
      Interprets numMsgs (depth+1) (file.continuedAt address) (messageNum+1) tracker middle nested (some (last,0,deeper)) →
      Interprets numMsgs depth {block with bytesRead:=(block.bytesRead+file.sizeAt address+msgSubHeaderSize)%2^32}
        (last+1) tracker deeper rest result →
      Interprets numMsgs depth block messageNum tracker object
        (⟨⟨address,depth⟩,!tracker.skips (file.typeAt address)⟩::(nested++rest)) result

end Model

section Termination
variable {file : MatFile}

theorem done_last (ended : some (last,0,after) = some ((final+65535)%65536,0,object)) : last = (final+65535)%65536 := by
  simp only [Option.some.injEq,Prod.mk.injEq] at ended
  exact ended.1

theorem returned_num (run : Interprets file numMsgs depth block messageNum tracker object log (some (last,0,after)))
    (count : numMsgs < 65536) (start : messageNum ≤ numMsgs) :
    ∃ final, last = (final+65535)%65536 ∧ messageNum ≤ final ∧ final ≤ numMsgs := by
  generalize ended : some (last,0,after) = result at run
  induction run generalizing last after with
  | done _ => exact ⟨_,done_last ended,Nat.le_refl _,start⟩
  | rejected _ _ took bad =>
    obtain ⟨⟨errFlag,fields⟩,took,returned⟩ := Option.map_eq_some_iff.mp ended.symm
    cases returned
    exact absurd took (bad _)
  | message goes _ _ _ _ ih =>
    obtain ⟨final,same,low,high⟩ := ih goes.1 ended
    exact ⟨final,same,by omega,high⟩
  | stopped _ _ _ _ _ bad _ => exact absurd ended.symm (bad _ _)
  | continued goes _ _ _ _ _ nested ih =>
    obtain ⟨deeper,same,low,high⟩ := nested goes.1 rfl
    obtain ⟨final,returned,above,under⟩ := ih (by omega) ended
    exact ⟨final,returned,by omega,under⟩

theorem interpretMessages_turn {block : Block} (goes : messageNum < numMsgs ∧ block.bytesRead < block.length)
    (here : address = block.start+block.bytesRead) :
    interpretMessages file numMsgs (left+1) block.start block.length messageNum block.bytesRead tracker object =
      (takeMessage file tracker (file.typeAt address) (address+msgSubHeaderSize) object).bind fun read =>
        if read.1 ≠ 0 then some (numMsgs,read)
        else if file.typeAt address = .continuation then
          (interpretMessages file numMsgs left (file.continuedAt address).start (file.continuedAt address).length
              (messageNum+1) 0 tracker read.2).bind fun nested =>
            if nested.2.1 ≠ 0 then some (numMsgs,nested.2)
            else interpretMessages file numMsgs left block.start block.length (nested.1+1)
              ((block.bytesRead+file.sizeAt address+msgSubHeaderSize)%2^32) tracker nested.2.2
        else interpretMessages file numMsgs left block.start block.length (messageNum+1)
          ((block.bytesRead+file.sizeAt address+msgSubHeaderSize)%2^32) (tracker.mark (file.typeAt address)) read.2 := by
  subst here
  simp only [interpretMessages,if_pos goes]
  rfl

theorem stopped_num (run : Interprets file numMsgs depth block messageNum tracker object log (some (last,errFlag,after)))
    (bad : errFlag ≠ 0) : last = numMsgs := by
  generalize ended : some (last,errFlag,after) = result at run
  induction run with
  | done _ =>
    simp only [Option.some.injEq,Prod.mk.injEq] at ended
    exact absurd ended.2.1 bad
  | rejected _ _ took _ =>
    obtain ⟨read,_,returned⟩ := Option.map_eq_some_iff.mp ended.symm
    cases returned
    rfl
  | message _ _ _ _ _ ih => exact ih ended
  | stopped _ _ _ _ _ _ ih => exact ih ended
  | continued _ _ _ _ _ _ _ ih => exact ih ended

-- Every run comes to an end, and it ends as the function does: each turn of a
-- loop and each level of a continuation takes one of the num_msgs messages.
theorem interprets_ends (count : numMsgs < 65536) (start : messageNum ≤ numMsgs) (enough : numMsgs ≤ messageNum+left)
    (block : Block) (depth : Nat) (tracker : RepeatTracker) (object : MetaData) :
    ∃ log, Interprets file numMsgs depth block messageNum tracker object log
      (interpretMessages file numMsgs left block.start block.length messageNum block.bytesRead tracker object) := by
  induction left generalizing messageNum block depth tracker object with
  | zero => exact ⟨[],.done (by omega)⟩
  | succ left ih =>
    by_cases goes : messageNum < numMsgs ∧ block.bytesRead < block.length
    case neg =>
      simp only [interpretMessages,if_neg goes]
      exact ⟨[],.done goes⟩
    rw [interpretMessages_turn goes rfl]
    cases took : takeMessage file tracker (file.typeAt (block.start+block.bytesRead))
        (block.start+block.bytesRead+msgSubHeaderSize) object with
    | none => exact ⟨_,.rejected goes rfl took.symm (by simp)⟩
    | some read =>
      obtain ⟨errFlag,middle⟩ := read
      rw [Option.bind_some]
      dsimp only
      split
      · rename_i bad
        exact ⟨_,.rejected goes rfl took.symm (by simp [bad])⟩
      · rename_i good
        obtain rfl : errFlag = 0 := Decidable.not_not.mp good
        split
        · rename_i continuation
          obtain ⟨nested,below⟩ := ih (show messageNum+1 ≤ numMsgs by omega) (by omega) (file.continuedAt (block.start+block.bytesRead))
            (depth+1) tracker middle
          cases ended : interpretMessages file numMsgs left (file.continuedAt (block.start+block.bytesRead)).start
              (file.continuedAt (block.start+block.bytesRead)).length (messageNum+1) 0 tracker middle with
          | none =>
            rw [show (file.continuedAt (block.start+block.bytesRead)).bytesRead = 0 from rfl,ended] at below
            exact ⟨_,.stopped goes rfl continuation took below (by simp)⟩
          | some returned =>
            obtain ⟨last,errFlag,deeper⟩ := returned
            rw [show (file.continuedAt (block.start+block.bytesRead)).bytesRead = 0 from rfl,ended] at below
            rw [Option.bind_some]
            dsimp only
            split
            · rename_i bad
              obtain rfl := stopped_num below bad
              exact ⟨_,.stopped goes rfl continuation took below (by simp [bad])⟩
            · rename_i good
              obtain rfl : errFlag = 0 := Decidable.not_not.mp good
              obtain ⟨final,same,low,high⟩ := returned_num below count (by omega)
              obtain ⟨rest,later⟩ := ih (show last+1 ≤ numMsgs by omega) (by omega)
                {block with bytesRead:=(block.bytesRead+file.sizeAt (block.start+block.bytesRead)+msgSubHeaderSize)%2^32}
                depth tracker deeper
              exact ⟨_,.continued goes rfl continuation took below later⟩
        · rename_i plain
          obtain ⟨rest,later⟩ := ih (show messageNum+1 ≤ numMsgs by omega) (by omega)
            {block with bytesRead:=(block.bytesRead+file.sizeAt (block.start+block.bytesRead)+msgSubHeaderSize)%2^32}
            depth (tracker.mark (file.typeAt (block.start+block.bytesRead))) middle
          exact ⟨_,.message goes rfl plain took later⟩

end Termination

section Expansion
variable {file : MatFile}

theorem expand_over {block : Block} (past : block.length ≤ block.bytesRead) :
    expand file wrap count (block::outer) = expand file wrap count outer := by
  cases count with
  | zero => rfl
  | succ count => simp only [expand,List.dropWhile_cons,past,decide_true,if_true]

theorem expand_turn {block : Block} (goes : block.bytesRead < block.length) (here : address = block.start+block.bytesRead) :
    expand file wrap (count+1) (block::outer) = ⟨address,outer.length⟩::expand file wrap count
      (if file.typeAt address = .continuation then
        file.continuedAt address::
          {block with bytesRead:=wrap (block.bytesRead+file.sizeAt address+msgSubHeaderSize)}::outer
      else {block with bytesRead:=wrap (block.bytesRead+file.sizeAt address+msgSubHeaderSize)}::outer) := by
  subst here
  have left : decide (block.length ≤ block.bytesRead) = false := decide_eq_false (by omega)
  simp only [expand,List.dropWhile_cons,left]
  rfl

-- bytes_read is a uint32_t.
def wrap32 (bytesRead : Nat) : Nat := bytesRead%2^32

-- A run goes through the expansion of its blocks from the front. A run without an
-- error leaves exactly the expansion of the blocks around it.
theorem interprets_expands (run : Interprets file numMsgs depth block messageNum tracker object log result)
    (count : numMsgs < 65536) (start : messageNum ≤ numMsgs) (outer : List Block) (level : outer.length = depth) :
    ∃ tail, expand file wrap32 (numMsgs-messageNum) (block::outer) = log.map Dispatch.toMessagePlace++tail ∧
      ∀ last after, result = some (last,0,after) → ∃ final, last = (final+65535)%65536 ∧ messageNum ≤ final ∧
        final ≤ numMsgs ∧ tail = expand file wrap32 (numMsgs-final) outer := by
  induction run generalizing outer with
  | @done messageNum _ _ _ _ past =>
    refine ⟨_,rfl,fun last after ended => ⟨messageNum,done_last ended.symm,Nat.le_refl _,start,?_⟩⟩
    by_cases full : messageNum < numMsgs
    · exact expand_over (by omega)
    · rw [show numMsgs-messageNum = 0 by omega]
      rfl
  | @rejected messageNum _ _ _ _ _ _ goes here took bad =>
    rw [show numMsgs-messageNum = (numMsgs-(messageNum+1))+1 by omega,expand_turn goes.2 here,level]
    refine ⟨_,rfl,fun last after ended => ?_⟩
    obtain ⟨⟨errFlag,fields⟩,took,returned⟩ := Option.map_eq_some_iff.mp ended
    cases returned
    exact absurd took (bad _)
  | @message messageNum _ _ _ _ _ _ _ _ goes here plain _ _ ih =>
    rw [show numMsgs-messageNum = (numMsgs-(messageNum+1))+1 by omega,expand_turn goes.2 here,level,if_neg plain]
    obtain ⟨tail,same,ends⟩ := ih goes.1 outer level
    refine ⟨tail,congrArg _ same,fun last after ended => ?_⟩
    obtain ⟨final,returned,low,high,rest⟩ := ends last after ended
    exact ⟨final,returned,by omega,high,rest⟩
  | @stopped messageNum _ _ _ _ _ _ _ _ goes here continuation _ _ bad ih =>
    rw [show numMsgs-messageNum = (numMsgs-(messageNum+1))+1 by omega,expand_turn goes.2 here,level,if_pos continuation]
    obtain ⟨tail,same,_⟩ := ih goes.1 (_::outer) (congrArg Nat.succ level)
    exact ⟨tail,congrArg _ same,fun last after ended => absurd ended (bad last after)⟩
  | @continued messageNum _ _ _ _ _ _ _ _ _ _ _ goes here continuation _ _ _ nested ih =>
    rw [show numMsgs-messageNum = (numMsgs-(messageNum+1))+1 by omega,expand_turn goes.2 here,level,if_pos continuation]
    obtain ⟨_,below,ends⟩ := nested goes.1 (_::outer) (congrArg Nat.succ level)
    obtain ⟨deeper,returned,low,high,rfl⟩ := ends _ _ rfl
    have next : (deeper+65535)%65536+1 = deeper := by omega
    rw [returned,next] at ih
    obtain ⟨tail,same,finishes⟩ := ih high outer level
    refine ⟨tail,?_,fun last after ended => ?_⟩
    · rw [below,List.map_cons,List.map_append,List.cons_append,List.append_assoc,← same]
      rfl
    · obtain ⟨final,last_,above,under,rest⟩ := finishes last after ended
      exact ⟨final,last_,by omega,under,rest⟩

theorem sizeAt_bound (file : MatFile) (address : Nat) : file.sizeAt address < 65536 :=
  littleEndian_bound file.bytes (address+2) 2

-- Below 2^31 bytes no counter of a block wraps.
theorem expand_plain (blocks : List Block) (short : ∀ block ∈ blocks, block.length < 2^31)
    (continuations : ∀ place ∈ expand file id count blocks, file.typeAt place.address = .continuation →
      (file.continuedAt place.address).length < 2^31) : expand file wrap32 count blocks = expand file id count blocks := by
  induction count generalizing blocks with
  | zero => rfl
  | succ count ih =>
    induction blocks with
    | nil => rfl
    | cons block outer skip =>
      by_cases goes : block.bytesRead < block.length
      · rw [expand_turn goes rfl] at continuations
        rw [expand_turn goes rfl,expand_turn goes rfl]
        have size := sizeAt_bound file (block.start+block.bytesRead)
        have length := short block (List.mem_cons_self ..)
        have counter : wrap32 (block.bytesRead+file.sizeAt (block.start+block.bytesRead)+msgSubHeaderSize) =
            id (block.bytesRead+file.sizeAt (block.start+block.bytesRead)+msgSubHeaderSize) := by
          simp only [wrap32,msgSubHeaderSize,id]
          omega
        rw [counter]
        refine congrArg _ (ih _ ?_ fun place member => continuations place (List.mem_cons_of_mem _ member))
        have rest (bytes : Nat) : ∀ other ∈ ({block with bytesRead:=bytes} : Block)::outer, other.length < 2^31 := by
          intro other member
          rcases List.mem_cons.mp member with rfl | tail
          · exact length
          · exact short other (List.mem_cons_of_mem _ tail)
        split
        · rename_i continuation
          intro other member
          rcases List.mem_cons.mp member with rfl | tail
          · exact continuations _ (List.mem_cons_self ..) continuation
          · exact rest _ other tail
        · exact rest _
      · have past : block.length ≤ block.bytesRead := Nat.le_of_not_lt goes
        rw [expand_over past] at continuations ⊢
        rw [expand_over past]
        exact skip (fun other member => short other (List.mem_cons_of_mem _ member)) continuations

def freshTracker : RepeatTracker := ⟨false,false,false,false⟩

end Expansion

section Readers
variable {file : MatFile}

-- The readers one after the other, each message to the reader of its kind.
def readAll (file : MatFile) : List MessagePlace → MetaData → Option (Nat × MetaData)
  | [],object => some (0,object)
  | place::rest,object =>
    (readMessage file (file.typeAt place.address) (place.address+msgSubHeaderSize) object).bind fun read =>
      if read.1 ≠ 0 then some read else readAll file rest read.2

theorem readAll_append (front back : List MessagePlace) (object : MetaData) :
    readAll file (front++back) object =
      (readAll file front object).bind fun read => if read.1 ≠ 0 then some read else readAll file back read.2 := by
  induction front generalizing object with
  | nil => rfl
  | cons place front ih =>
    simp only [List.cons_append,readAll,ih,Option.bind_assoc]
    congr 1
    funext read
    by_cases bad : read.1 = 0
    · simp [bad]
    · simp [bad]

def dispatched (log : List Dispatch) : List MessagePlace := (log.filter Dispatch.applied).map Dispatch.toMessagePlace

theorem dispatched_turn (took : takeMessage file tracker (file.typeAt address) (address+msgSubHeaderSize) object = some (0,middle))
    (depth : Nat) (rest : List Dispatch) :
    readAll file (dispatched (⟨⟨address,depth⟩,!tracker.skips (file.typeAt address)⟩::rest)) object =
      readAll file (dispatched rest) middle := by
  unfold takeMessage at took
  unfold dispatched
  split at took
  · rename_i skipped
    cases took
    rw [List.filter_cons_of_neg (by simpa using skipped)]
  · rename_i read
    rw [List.filter_cons_of_pos (by simpa using read),List.map_cons,readAll]
    dsimp only
    rw [took,Option.bind_some,if_neg (not_not.mpr rfl)]

theorem interprets_dispatched (run : Interprets file numMsgs depth block messageNum tracker object log result) :
    readAll file (dispatched log) object = result.map Prod.snd := by
  induction run with
  | done _ => rfl
  | @rejected _ _ taken _ _ _ _ _ _ took bad =>
    unfold takeMessage at took
    split at took
    · exact absurd took (bad _)
    · rename_i read
      unfold dispatched
      rw [List.filter_cons_of_pos (by simpa using read),List.filter_nil,List.map_singleton,readAll]
      dsimp only
      rw [← took]
      cases taken with
      | none => rfl
      | some after =>
        have failed : after.1 ≠ 0 := fun zero => bad after.2 (by rw [← zero])
        rw [Option.bind_some,if_pos failed]
        rfl
  | message _ _ _ took _ ih =>
    rw [dispatched_turn took]
    exact ih
  | stopped _ _ _ took _ _ ih =>
    rw [dispatched_turn took]
    exact ih
  | continued _ _ _ took _ _ nested ih =>
    rw [dispatched_turn took]
    unfold dispatched at nested ih ⊢
    rw [List.filter_append,List.map_append,readAll_append,nested,Option.map_some,Option.bind_some,
      if_neg (not_not.mpr rfl)]
    exact ih

end Readers

def nonRepeated : MessageType → Bool
  | .dataSpace => true
  | .dataType => true
  | .dataLayout => true
  | .pipeline => true
  | _ => false

section Repetition
variable (file : MatFile)

-- Each message of such a type goes to its reader if and only if it is the first.
def AppliedOnce (log : List Dispatch) : Prop :=
  ∀ earlier dispatch later, log = earlier++dispatch::later → nonRepeated (file.typeAt dispatch.address) = true →
    (dispatch.applied = true ↔ ∀ other ∈ earlier, file.typeAt other.address ≠ file.typeAt dispatch.address)

-- A message of the type came before, in a block that is still open at the depth.
def StillOpen (before : List MessagePlace) (depth : Nat) (kind : MessageType) : Prop :=
  ∃ earlier place between, before = earlier++place::between ∧ file.typeAt place.address = kind ∧
    place.depth ≤ depth ∧ ∀ other ∈ between, place.depth ≤ other.depth

-- No message of such a type is the first in the blocks around it but not the
-- first of the header.
def Enclosed (places : List MessagePlace) : Prop :=
  ∀ before place after, places = before++place::after → nonRepeated (file.typeAt place.address) = true →
    (∃ other ∈ before, file.typeAt other.address = file.typeAt place.address) →
    StillOpen file before place.depth (file.typeAt place.address)

variable {file}

theorem stillOpen_snoc : StillOpen file (before++[place]) depth kind ↔
    (place.depth ≤ depth ∧ file.typeAt place.address = kind) ∨ StillOpen file before (min place.depth depth) kind := by
  constructor
  · rintro ⟨earlier,found,between,same,type,low,inside⟩
    rcases List.eq_nil_or_concat between with rfl | ⟨front,last,rfl⟩
    · obtain ⟨_,here⟩ := List.append_inj' same rfl
      cases here
      exact .inl ⟨low,type⟩
    · rw [List.concat_eq_append,← List.cons_append,← List.append_assoc] at same
      obtain ⟨rfl,here⟩ := List.append_inj' same rfl
      cases here
      simp only [List.concat_eq_append,List.mem_append,List.mem_singleton] at inside
      exact .inr ⟨earlier,found,front,rfl,type,Nat.le_min.mpr ⟨inside _ (.inr rfl),low⟩,
        fun other member => inside other (.inl member)⟩
  · rintro (⟨low,type⟩ | ⟨earlier,found,between,rfl,type,low,inside⟩)
    · exact ⟨before,place,[],rfl,type,low,by simp⟩
    · refine ⟨earlier,found,between++[place],by simp,type,Nat.le_trans low (Nat.min_le_right ..),?_⟩
      intro other member
      rcases List.mem_append.mp member with old | new
      · exact inside other old
      · rw [List.mem_singleton.mp new]
        exact Nat.le_trans low (Nat.min_le_left ..)

theorem stillOpen_below (deeper : ∀ place ∈ nested, depth < place.depth) :
    StillOpen file (before++nested) depth kind ↔ StillOpen file before depth kind := by
  induction nested using List.reverseRecOn with
  | nil => rw [List.append_nil]
  | append_singleton nested last ih =>
    have below := deeper last (by simp)
    rw [← List.append_assoc,stillOpen_snoc,Nat.min_eq_right (Nat.le_of_lt below),
      ih fun place member => deeper place (by simp [member])]
    exact ⟨fun either => either.resolve_left fun here => absurd here.1 (Nat.not_le.mpr below),.inr⟩

theorem skips_mark (tracker : RepeatTracker) (kind other : MessageType) (rule : nonRepeated kind = true) :
    (tracker.mark other).skips kind = true ↔ other = kind ∨ tracker.skips kind = true := by
  cases kind <;> cases other <;> simp_all [RepeatTracker.mark,RepeatTracker.skips,nonRepeated]

def Tracks (file : MatFile) (tracker : RepeatTracker) (before : List MessagePlace) (depth : Nat) : Prop :=
  ∀ kind, nonRepeated kind = true → (tracker.skips kind = true ↔ StillOpen file before depth kind)

theorem Tracks.deeper {place : MessagePlace} (tracks : Tracks file tracker before depth) (level : place.depth = depth)
    (continuation : file.typeAt place.address = .continuation) : Tracks file tracker (before++[place]) (depth+1) := by
  intro kind rule
  rw [tracks kind rule,stillOpen_snoc,level,Nat.min_eq_left (Nat.le_succ depth)]
  refine ⟨.inr,fun either => either.resolve_left ?_⟩
  rintro ⟨_,rfl⟩
  rw [continuation] at rule
  cases rule

theorem Tracks.after {place : MessagePlace} (tracks : Tracks file tracker before depth) (level : place.depth = depth) :
    Tracks file (tracker.mark (file.typeAt place.address)) (before++[place]) depth := by
  intro kind rule
  rw [skips_mark _ _ _ rule,tracks kind rule,stillOpen_snoc,level,Nat.min_self]
  exact or_congr_left ⟨fun same => ⟨Nat.le_refl _,same⟩,And.right⟩

theorem Tracks.back {place : MessagePlace} (tracks : Tracks file tracker before depth) (level : place.depth = depth)
    (continuation : file.typeAt place.address = .continuation) (deeper : ∀ other ∈ nested, depth < other.depth) :
    Tracks file tracker (before++[place]++nested) depth := by
  have same := tracks.after level
  rw [continuation] at same
  exact fun kind rule => (same kind rule).trans (stillOpen_below deeper).symm

def Marked (file : MatFile) : List MessagePlace → List Dispatch → Prop
  | _,[] => True
  | before,dispatch::rest =>
    (nonRepeated (file.typeAt dispatch.address) = true →
      (dispatch.applied = true ↔ ¬StillOpen file before dispatch.depth (file.typeAt dispatch.address))) ∧
    Marked file (before++[dispatch.toMessagePlace]) rest

theorem marked_append : Marked file before (front++back) ↔
    Marked file before front ∧ Marked file (before++front.map Dispatch.toMessagePlace) back := by
  induction front generalizing before with
  | nil => simp [Marked]
  | cons dispatch rest ih =>
    simp only [List.cons_append,Marked,ih,List.map_cons,and_assoc,List.append_assoc,List.nil_append]

theorem Tracks.marks (tracks : Tracks file tracker before depth) (rule : nonRepeated kind = true) :
    (!tracker.skips kind) = true ↔ ¬StillOpen file before depth kind := by
  rw [← tracks kind rule,Bool.not_eq_true',Bool.not_eq_true]

theorem interprets_marked (run : Interprets file numMsgs depth block messageNum tracker object log result)
    (before : List MessagePlace) (tracks : Tracks file tracker before depth) :
    (∀ place ∈ log.map Dispatch.toMessagePlace, depth ≤ place.depth) ∧ Marked file before log := by
  induction run generalizing before with
  | done _ => exact ⟨by simp,trivial⟩
  | rejected _ _ _ _ => exact ⟨by simp,fun rule => tracks.marks rule,trivial⟩
  | @message _ address _ _ _ depth _ _ _ _ _ _ _ _ ih =>
    have level : (⟨address,depth⟩ : MessagePlace).depth = depth := rfl
    obtain ⟨levels,marked⟩ := ih _ (tracks.after level)
    exact ⟨by simpa using levels,fun rule => tracks.marks rule,marked⟩
  | @stopped _ address _ _ _ depth _ _ _ _ _ continuation _ _ _ ih =>
    have level : (⟨address,depth⟩ : MessagePlace).depth = depth := rfl
    obtain ⟨levels,marked⟩ := ih _ (tracks.deeper level continuation)
    refine ⟨fun place member => ?_,fun rule => tracks.marks rule,marked⟩
    rcases List.mem_cons.mp member with rfl | inside
    · exact Nat.le_refl _
    · exact Nat.le_of_succ_le (levels place inside)
  | @continued _ address _ _ _ depth _ _ _ _ _ _ _ _ continuation _ _ _ nested ih =>
    have level : (⟨address,depth⟩ : MessagePlace).depth = depth := rfl
    obtain ⟨levels,marked⟩ := nested _ (tracks.deeper level continuation)
    obtain ⟨later,markedLater⟩ := ih _ (tracks.back level continuation levels)
    refine ⟨fun place member => ?_,fun rule => tracks.marks rule,marked_append.mpr ⟨marked,markedLater⟩⟩
    rcases List.mem_cons.mp member with rfl | inside
    · exact Nat.le_refl _
    · rw [List.map_append] at inside
      rcases List.mem_append.mp inside with below | after
      · exact Nat.le_of_succ_le (levels place below)
      · exact later place after

theorem marked_exact : Marked file before log ↔ ∀ earlier dispatch later, log = earlier++dispatch::later →
    nonRepeated (file.typeAt dispatch.address) = true →
      (dispatch.applied = true ↔
        ¬StillOpen file (before++earlier.map Dispatch.toMessagePlace) dispatch.depth (file.typeAt dispatch.address)) := by
  induction log generalizing before with
  | nil => simp [Marked]
  | cons first rest ih =>
    rw [Marked,ih]
    constructor
    · rintro ⟨here,below⟩ earlier dispatch later same
      cases earlier with
      | nil =>
        cases same
        simpa using here
      | cons head tail =>
        cases same
        simpa using below tail dispatch later rfl
    · intro all_
      refine ⟨by simpa using all_ [] first rest rfl,fun earlier dispatch later same => ?_⟩
      simpa using all_ (first::earlier) dispatch later (by rw [same]; rfl)

theorem freshTracker_tracks : Tracks file freshTracker [] 0 := by
  intro kind rule
  constructor
  · intro skipped
    cases kind <;> simp [freshTracker,RepeatTracker.skips,nonRepeated] at skipped rule
  · rintro ⟨earlier,place,between,same,_⟩
    simp at same

theorem interprets_repeated (run : Interprets file numMsgs depth block messageNum tracker object log result)
    (member : dispatch ∈ log) (rule : nonRepeated (file.typeAt dispatch.address) = false)
    (known : file.typeAt dispatch.address ≠ .ignored) : dispatch.applied = true := by
  have here (address depth : Nat) (tracker : RepeatTracker)
      (same : dispatch = ⟨⟨address,depth⟩,!tracker.skips (file.typeAt address)⟩) : dispatch.applied = true := by
    subst same
    dsimp only at rule known ⊢
    cases kind : file.typeAt address with
    | attributeMsg | continuation => rfl
    | ignored => exact absurd kind known
    | _ =>
      rw [kind] at rule
      cases rule
  induction run with
  | done _ => cases member
  | rejected _ _ _ _ => exact here _ _ _ (List.mem_singleton.mp member)
  | message _ _ _ _ _ ih => exact (List.mem_cons.mp member).elim (here _ _ _) ih
  | stopped _ _ _ _ _ _ ih => exact (List.mem_cons.mp member).elim (here _ _ _) ih
  | continued _ _ _ _ _ _ nested ih =>
    exact (List.mem_cons.mp member).elim (here _ _ _) fun inside => (List.mem_append.mp inside).elim nested ih

-- Every message that has a reader goes to it, unless its kind is not to be repeated and
-- one of the kind came before.
def ReadsFirst (file : MatFile) (log : List Dispatch) : Prop :=
  ∀ earlier dispatch later, log = earlier++dispatch::later → file.typeAt dispatch.address ≠ .ignored →
    (nonRepeated (file.typeAt dispatch.address) = true →
      ∀ other ∈ earlier, file.typeAt other.address ≠ file.typeAt dispatch.address) → dispatch.applied = true

theorem interprets_first (run : Interprets file numMsgs 0 block messageNum freshTracker object log result) :
    ReadsFirst file log := by
  intro earlier dispatch later split known first
  cases rule : nonRepeated (file.typeAt dispatch.address) with
  | false => exact interprets_repeated run (by rw [split]; simp) rule known
  | true =>
    refine (marked_exact.mp (interprets_marked run [] freshTracker_tracks).2 earlier dispatch later split rule).mpr ?_
    rw [List.nil_append]
    rintro ⟨before,place,between,found,type,_⟩
    have member : place ∈ earlier.map Dispatch.toMessagePlace := by rw [found]; simp
    obtain ⟨entry,listed,rfl⟩ := List.mem_map.mp member
    exact first rule entry listed type

-- interpretMessages on the header of an object. The derivation is finite and ends
-- as the function does; the object is what the readers of the messages in it leave,
-- and without an error these are the messages at the front of the expansion.
theorem interpretMessages_exact (file : MatFile) (start length numMsgs : Nat) (count : numMsgs < 65536) (object : MetaData) :
    (∃ log, Interprets file numMsgs 0 ⟨start,length,0⟩ 0 freshTracker object log
      (interpretMessages file numMsgs numMsgs start length 0 0 freshTracker object)) ∧
    ∀ log result, Interprets file numMsgs 0 ⟨start,length,0⟩ 0 freshTracker object log result →
      readAll file (dispatched log) object = result.map Prod.snd ∧ ReadsFirst file log ∧
      ∀ last after, result = some (last,0,after) → length < 2^31 → (∀ place ∈ expand file id numMsgs [⟨start,length,0⟩],
          file.typeAt place.address = .continuation → (file.continuedAt place.address).length < 2^31) →
        log.map Dispatch.toMessagePlace = expand file id numMsgs [⟨start,length,0⟩] := by
  refine ⟨interprets_ends count (Nat.zero_le _) (by omega) ⟨start,length,0⟩ 0 freshTracker object,?_⟩
  intro log result run
  refine ⟨interprets_dispatched run,interprets_first run,?_⟩
  rintro last after rfl short continuations
  obtain ⟨tail,same,ends⟩ := interprets_expands run count (Nat.zero_le _) [] rfl
  obtain ⟨final,_,_,_,rfl⟩ := ends last after rfl
  have plain := expand_plain [⟨start,length,0⟩] (by simpa using short) continuations
  have nothing : expand file wrap32 (numMsgs-final) [] = [] := by cases numMsgs-final <;> rfl
  rw [Nat.sub_zero,plain,nothing,List.append_nil] at same
  exact same.symm

-- A header of 48 bytes: a continuation into 24 bytes at 64 that hold a dataspace
-- message, and behind it another dataspace message.
def repeatedFile : MatFile := wordFile
  [0x00100010,64,24,0x00100001,0x0101,7,0,0,0x00100001,0x0101,5] ⟨8,8,40,0,0,0⟩

theorem repeatedFile_run : ∃ last after, Interprets repeatedFile 3 0 ⟨0,48,0⟩ 0 freshTracker initializeObject.toMetaData
    [⟨⟨0,0⟩,true⟩,⟨⟨64,1⟩,true⟩,⟨⟨24,0⟩,true⟩] (some (last,0,after)) :=
  ⟨_,_,.continued (by decide) rfl (by decide) rfl
    (.message (by decide) rfl (by decide) rfl (.done (by decide)))
    (.message (by decide) rfl (by decide) rfl (.done (by decide)))⟩

theorem interpretMessages_repeatedFile : ∃ log last after, Interprets repeatedFile 3 0 ⟨0,48,0⟩ 0 freshTracker
    initializeObject.toMetaData log (some (last,0,after)) ∧ log.map Dispatch.toMessagePlace = [⟨0,0⟩,⟨64,1⟩,⟨24,0⟩] ∧
    readAll repeatedFile [⟨0,0⟩,⟨64,1⟩,⟨24,0⟩] initializeObject.toMetaData = some (0,after) := by
  obtain ⟨last,after,run⟩ := repeatedFile_run
  obtain ⟨reads,_,whole⟩ := (interpretMessages_exact repeatedFile 0 48 3 (by decide) initializeObject.toMetaData).2 _ _ run
  exact ⟨_,last,after,run,(whole _ _ rfl (by decide) (by decide)).trans (by decide),reads⟩

-- The tracker is handed down into a continuation block but not back: the rule
-- holds exactly if no such message is hidden in a block that is closed again.
theorem appliedOnce_exact (count : numMsgs < 65536)
    (run : Interprets file numMsgs 0 ⟨start,length,0⟩ 0 freshTracker object log result) :
    (AppliedOnce file log ↔
      Enclosed file ((expand file wrap32 numMsgs [⟨start,length,0⟩]).take log.length)) ∧
    ∀ last after, result = some (last,0,after) →
      (expand file wrap32 numMsgs [⟨start,length,0⟩]).take log.length = expand file wrap32 numMsgs [⟨start,length,0⟩] := by
  obtain ⟨tail,same,ends⟩ := interprets_expands run count (Nat.zero_le _) [] rfl
  rw [Nat.sub_zero] at same
  have front : (expand file wrap32 numMsgs [⟨start,length,0⟩]).take log.length = log.map Dispatch.toMessagePlace := by
    rw [same]
    exact List.take_left' (List.length_map ..)
  have marked := marked_exact.mp (interprets_marked run [] freshTracker_tracks).2
  rw [front]
  refine ⟨?_,fun last after ended => ?_⟩
  · constructor
    · rintro once before place after split rule ⟨other,member,type⟩
      obtain ⟨earlier,rest,rfl,rfl,tails⟩ := List.map_eq_append_iff.mp split
      obtain ⟨dispatch,later,rfl,rfl,rfl⟩ := List.map_eq_cons_iff.mp tails
      obtain ⟨entry,listed,rfl⟩ := List.mem_map.mp member
      have applied := once earlier dispatch later rfl rule
      apply Classical.byContradiction
      intro closed
      have read := (marked earlier dispatch later rfl rule).mpr (by simpa using closed)
      exact applied.mp read entry listed type
    · intro enclosed earlier dispatch later split rule
      subst split
      rw [marked earlier dispatch later rfl rule,List.nil_append]
      constructor
      · intro closed other member type
        exact closed (enclosed _ _ _ (by rw [List.map_append,List.map_cons]) rule ⟨_,List.mem_map_of_mem member,type⟩)
      · rintro first ⟨before,place,between,found,type,_⟩
        have member : place ∈ earlier.map Dispatch.toMessagePlace := by rw [found]; simp
        obtain ⟨entry,listed,rfl⟩ := List.mem_map.mp member
        exact first entry listed type
  · obtain ⟨final,_,_,_,rfl⟩ := ends last after ended
    have nothing : expand file wrap32 (numMsgs-final) [] = [] := by cases numMsgs-final <;> rfl
    rw [nothing,List.append_nil] at same
    exact same.symm

-- Cut off before the second dataspace message the header is in order.
theorem appliedOnce_repeatedFile : ∃ log result, Interprets repeatedFile 2 0 ⟨0,48,0⟩ 0 freshTracker
    initializeObject.toMetaData log result ∧ log.length = 2 ∧ AppliedOnce repeatedFile log := by
  have run : Interprets repeatedFile 2 0 ⟨0,48,0⟩ 0 freshTracker initializeObject.toMetaData
      [⟨⟨0,0⟩,true⟩,⟨⟨64,1⟩,true⟩] _ :=
    .continued (by decide) rfl (by decide) rfl (.message (by decide) rfl (by decide) rfl (.done (by decide))) (.done (by decide))
  refine ⟨_,_,run,rfl,(appliedOnce_exact (by decide) run).1.mpr ?_⟩
  rintro before place after same rule ⟨other,member,type⟩
  have places : (expand repeatedFile wrap32 2 [⟨0,48,0⟩]).take 2 = [⟨0,0⟩,⟨64,1⟩] := by decide
  rw [List.length_cons,List.length_singleton,places] at same
  match before,same with
  | [],_ => cases member
  | [_],rfl =>
    rw [List.mem_singleton.mp member] at type
    exact absurd type (by decide)
  | _::_::_,same => simp at same

-- Both dataspace messages are read, and the dimensions are those of the second.
theorem dataSpace_twice : ¬ ∀ (file : MatFile) (start length numMsgs : Nat) (object : MetaData) (log : List Dispatch)
    (result : Option (Nat × Nat × MetaData)), numMsgs < 65536 →
    Interprets file numMsgs 0 ⟨start,length,0⟩ 0 freshTracker object log result → AppliedOnce file log := by
  intro always
  obtain ⟨last,after,run⟩ := repeatedFile_run
  have once := always _ _ _ _ _ _ _ (by decide) run
  have second := (once [⟨⟨0,0⟩,true⟩,⟨⟨64,1⟩,true⟩] ⟨⟨24,0⟩,true⟩ [] rfl (by decide)).mp rfl
  exact second ⟨⟨64,1⟩,true⟩ (by decide) (by decide)

end Repetition
end GetMatVar
