import CourseraObjC.Runs
import CourseraObjC.ManagedContext
import CourseraObjC.EditScreen
import CourseraObjC.EditScreenRuns
import CourseraObjC.ToDoApp
import CourseraObjC.UserEngine
import CourseraObjC.UserAccounts
import CourseraObjC.RowBatch
import CourseraObjC.FetchedResults
import CourseraObjC.PaddleTouch
import CourseraObjC.TableCells
import CourseraObjC.ChoreLog
import CourseraObjC.ChoreScreen
import CourseraObjC.ChoreScreenRuns
import CourseraObjC.ReverseGeocode
import CourseraObjC.StringTable
import CourseraObjC.StringSort
import CourseraObjC.GameScene
import CourseraObjC.GameSceneRuns
import CourseraObjC.BlockLayout
import CourseraObjC.SpeedGovernor
import CourseraObjC.BinaryRounding
import CourseraObjC.PongScene
import CourseraObjC.PongMirror
import CourseraObjC.Touches
import CourseraObjC.FootballScene
import CourseraObjC.AccountButtons
import CourseraObjC.GeoFence
import CourseraObjC.DistanceRequest
import CourseraObjC.DistanceLabels
import CourseraObjC.UTF16
import CourseraObjC.TweetText
import CourseraObjC.MyTime
import CourseraObjC.MixedRadix
import CourseraObjC.MyTimeOrder
import CourseraObjC.KeyedUpdates
import CourseraObjC.Upserts
import CourseraObjC.MergedEdits
import CourseraObjC.FieldOperations
import CourseraObjC.Numbers
import CourseraObjC.FieldMerges
import CourseraObjC.ParseObject
import CourseraObjC.SaveSession
import CourseraObjC.EstimatedData
import CourseraObjC.SaveLog
import CourseraObjC.StaleSets
import CourseraObjC.KeyAvailability
import CourseraObjC.PercentEncoding
import CourseraObjC.QueryParameters
import CourseraObjC.LoginFlow
import CourseraObjC.AccountStore
import CourseraObjC.AccountTokens
import CourseraObjC.AccountKeychain
import CourseraObjC.RedirectDispatch
import CourseraObjC.LoginRefinement
import CourseraObjC.WaitGraph
import CourseraObjC.BoltsTasks
import CourseraObjC.TaskWiring
import CourseraObjC.TaskRuns
import CourseraObjC.TaskGrowth
import CourseraObjC.TaskQueues
import CourseraObjC.QueueOrder
import CourseraObjC.TurnTaking
import CourseraObjC.QueuedSaves
import CourseraObjC.ObjectGraph
import CourseraObjC.PathSearch
import CourseraObjC.ChildrenDirty
import CourseraObjC.DirtyChildren
import CourseraObjC.Rounds
import CourseraObjC.SaveWaves
import CourseraObjC.DeepSaves
