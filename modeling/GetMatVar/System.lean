namespace GetMatVar

-- alloc_gran and file_size, fixed once the file is open.
structure FileLayout where
  allocGran : Nat
  fileSize : Nat
  granular : 0 < allocGran

theorem page_granular : 0 < 4096 := by decide

-- One chunk record of the chunk B-tree.
structure DataPair where
  address : Nat
  chunkSize : Nat
  chunkStart : List Int
deriving DecidableEq,Repr

end GetMatVar
