import GetMatVar.ChunkedData
import GetMatVar.InflateErrors
import GetMatVar.Navigate
import GetMatVar.ReferenceRuns
import GetMatVar.ChunkTree
import GetMatVar.InterpretMessages
import GetMatVar.ChunkThreads
import GetMatVar.CopyCalls
import GetMatVar.MessageOrder
import GetMatVar.CloneFill
import GetMatVar.MakeSubstructure
import GetMatVar.RejectedMessages
import GetMatVar.DataSpace
import GetMatVar.PlaceData
import GetMatVar.EzqRuns
import GetMatVar.QueueSystem
import GetMatVar.SkeletonErrors
import GetMatVar.ChunkDescent
import GetMatVar.SkeletonDescent
import GetMatVar.VarnameQueue
import GetMatVar.VarnamePrint
import GetMatVar.VarnameAccesses
import GetMatVar.SelectionErrors
import GetMatVar.FillWalks
import GetMatVar.FillDescent
import GetMatVar.FillSteps
import GetMatVar.RecursiveWalks
import GetMatVar.HostOrder
import GetMatVar.FillSuperblock
import GetMatVar.AttributeMessage
import GetMatVar.FilterPipeline
import GetMatVar.CompoundTypes
import GetMatVar.ReadWindows
import GetMatVar.ReadInput
import GetMatVar.LoadsEverything
import GetMatVar.ImaginaryData
import GetMatVar.NameLengths
import GetMatVar.OpenFile
import GetMatVar.ObjectQueue
import GetMatVar.GetDataObjects
import GetMatVar.DatasetHeader
import GetMatVar.ChunkedDataset
import GetMatVar.FillWorkspace
import GetMatVar.SelectWorkspace
import GetMatVar.MexFunction
import GetMatVar.ReturnedData
import GetMatVar.MapObjects
import GetMatVar.PageMappings
